/-! # Log records -/

namespace Polyfill

/-- The weight of a record. -/
inductive Level where
  | error
  | warn
  | info
  | debug
  | trace
  deriving DecidableEq

namespace Level

/-- The name of a level. -/
def name : Level → String
  | error => "ERROR"
  | warn => "WARN"
  | info => "INFO"
  | debug => "DEBUG"
  | trace => "TRACE"

/-- The rank of a level, the weightiest first. -/
def rank : Level → Nat
  | error => 1
  | warn => 2
  | info => 3
  | debug => 4
  | trace => 5

end Level

/-- A record of what a run did. -/
structure Record where
  level : Level
  message : String
  deriving DecidableEq

/-- The lower-case hexadecimal digits of a number. -/
def hexDigits (n : Nat) : String := String.ofList (Nat.toDigits 16 n)

/-- A character of a message as it is shown. Characters that could steer a terminal are written out. -/
def shownChar (c : Char) : String :=
  if c = '\x07' then "\\x07"
  else if c = '\x08' then "\\x08"
  else if c = '\x0c' then "\\x0c"
  else if c = '\x1b' then "\\x1b"
  else if c = '\x7f' then "\\x7f"
  else if 0x80 ≤ c.toNat ∧ c.toNat ≤ 0x9F then "\\u\x7b" ++ hexDigits c.toNat ++ "\x7d"
  else String.singleton c

/-- The message of a record as it is shown. -/
def Record.shown (r : Record) : String := String.join (r.message.toList.map shownChar)

/-- Which records are shown: those up to a level, or none. -/
abbrev LogFilter := Option Level

/-- The record passes the filter. -/
def Record.passes (filter : LogFilter) (r : Record) : Bool :=
  match filter with
  | none => false
  | some level => r.level.rank ≤ level.rank

end Polyfill
