import Polyfill.Disk.Path

/-! # The report of a run

The report says what became of each entry. Its written form is JSON with two spaces of indentation, the
keys in a fixed order, and no line break at the end. -/

namespace Polyfill.Batch

/-- An entry that was not written, and why. -/
structure Skipped where
  identity : Text
  reason : String
  deriving DecidableEq

/-- What became of the cleanup. -/
inductive CleanupResult where
  | succeeded
  | failed (message : String)
  deriving DecidableEq

/-- What a run did. -/
structure Report where
  /-- The files written, in order. -/
  written : List Path := []
  /-- The entries left out, in order. -/
  skipped : List Skipped := []
  /-- The files written as they were, because they could not be transformed. -/
  fallbacks : List Path := []
  /-- The number of notices removed from all files written. -/
  prunedStatements : Nat := 0
  cleanup : Option CleanupResult := none
  deriving DecidableEq

/-! ### The written form -/

/-- A digit below sixteen. -/
def hexDigit (n : Nat) : Char := if n < 10 then Char.ofNat (0x30 + n) else Char.ofNat (0x57 + n)

/-- A character inside quotes. -/
def quotedChar (c : Char) : String :=
  if c = '"' then "\\\""
  else if c = '\\' then "\\\\"
  else if c = '\n' then "\\n"
  else if c = '\r' then "\\r"
  else if c = '\t' then "\\t"
  else if c = '\x08' then "\\b"
  else if c = '\x0c' then "\\f"
  else if c.toNat < 0x20 then
    "\\u00" ++ String.ofList [hexDigit (c.toNat / 16), hexDigit (c.toNat % 16)]
  else String.singleton c

/-- A text in quotes. -/
def quoted (s : String) : String := "\"" ++ String.join (s.toList.map quotedChar) ++ "\""

/-- The blanks before a line at the given depth. -/
def indentation (depth : Nat) : String := String.ofList (List.replicate (2 * depth) ' ')

/-- Items on lines of their own, one level deeper than the brackets around them. -/
def block (opening closing : String) (depth : Nat) (items : List String) : String :=
  if items.isEmpty then opening ++ closing
  else
    opening ++ "\n" ++ String.intercalate ",\n" (items.map (indentation (depth + 1) ++ ·)) ++ "\n" ++
      indentation depth ++ closing

/-- A list of items. -/
def list (depth : Nat) (items : List String) : String := block "[" "]" depth items

/-- Keys with their values. -/
def object (depth : Nat) (fields : List (String × String)) : String :=
  block "\x7b" "\x7d" depth (fields.map fun f => quoted f.1 ++ ": " ++ f.2)

/-- The written form of a list of paths. -/
def pathList (depth : Nat) (ps : List Path) : String := list depth (ps.map fun p => quoted p.display)

/-- The written form of an entry left out. -/
def Skipped.render (depth : Nat) (s : Skipped) : String :=
  object depth [("identity", quoted s.identity.display), ("reason", quoted s.reason)]

/-- The written form of the result of the cleanup. -/
def CleanupResult.render (depth : Nat) : CleanupResult → String
  | succeeded => object depth [("status", quoted "succeeded")]
  | failed message => object depth [("status", quoted "failed"), ("message", quoted message)]

/-- **The written form of a report.** -/
def Report.render (r : Report) : String :=
  object 0 [
    ("written", pathList 1 r.written),
    ("skipped", list 1 (r.skipped.map (Skipped.render 2))),
    ("fallbacks", pathList 1 r.fallbacks),
    ("pruned_statements", toString r.prunedStatements),
    ("cleanup", (r.cleanup.map (CleanupResult.render 1)).getD "null")]

end Polyfill.Batch
