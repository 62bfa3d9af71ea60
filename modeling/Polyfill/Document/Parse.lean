import Polyfill.Document.DocumentParser
import Polyfill.Document.Quoted
import Polyfill.Document.Scalar

/-! # Parsing a document

A document is a sequence of lines: headers of tables, keys with their values, and blank lines. Arrays
and inline tables may stretch over several lines and end in a comma. Neither they nor the parts of a key
may nest deeper than `nestingLimit`. -/

namespace Polyfill.Document

open Scan Reader

/-- How deep tables and arrays may nest in a value, and how many parts a key may have. -/
def nestingLimit : Nat := 80

/-- A byte of a bare key. -/
def isKeyByte (b : UInt8) : Bool := isLetter b || isDigit b || b == 0x5F || b == 0x2D

/-- One part of a key. -/
def readKeyPart : Reader Text := do
  if (← sees "\"") || (← sees "'") then readLineString
  else
    let key ← readWhile isKeyByte
    ensure (!key.isEmpty)
    return key

/-- A further part of a dotted key, if there is one. -/
def readDottedPart : Reader (Option Text) := do
  skipSpaces
  if ← accept "." then
    skipSpaces
    return some (← readKeyPart)
  else return none

/-- A dotted key, with the blanks around it. -/
def readKey : Reader (List Text) := do
  skipSpaces
  let first ← readKeyPart
  let more ← collect readDottedPart ((← rest).length + 1)
  ensure (more.length < nestingLimit)
  return first :: more

mutual

/-- A value in which tables and arrays nest at most `room` times. -/
def readValue : (fuel room : Nat) → Reader Value
  | 0, _ => refuse
  | fuel + 1, room => do
    if (← sees "\"") || (← sees "'") then return .string (← readString)
    if ← accept "[" then
      match room with
      | 0 => refuse
      | room + 1 => return .array (← readElements fuel room)
    if ← accept "\x7b" then
      match room with
      | 0 => refuse
      | room + 1 => return .table (Item.closeEntries (← readInline fuel room []))
    readScalar

/-- The elements of an array up to its closing bracket. -/
def readElements : (fuel room : Nat) → Reader (List Value)
  | 0, _ => refuse
  | fuel + 1, room => do
    skipBlank
    if ← accept "]" then return []
    let v ← readValue fuel room
    skipBlank
    if ← accept "," then return v :: (← readElements fuel room)
    expect "]"
    return [v]

/-- The entries of an inline table up to its closing brace, behind those already read. -/
def readInline : (fuel room : Nat) → Entries → Reader Entries
  | 0, _, _ => refuse
  | fuel + 1, room, es => do
    skipBlank
    if ← accept "\x7d" then return es
    let key ← readKey
    skipBlank
    expect "="
    skipBlank
    let v ← readValue fuel room
    match Item.insert v key es with
    | none => refuse
    | some es' =>
      skipBlank
      if ← accept "," then readInline fuel room es'
      else
        expect "\x7d"
        return es'

end

/-- A document that is being read: its entries and the path of the table that takes further keys. -/
structure Draft where
  entries : Entries := []
  path : List Text := []

/-- Go on with the entries, unless they are refused. -/
def Draft.ofEntries (path : List Text) : Option Entries → Reader Draft
  | none => refuse
  | some entries => return { entries, path }

/-- Read one line. -/
def readLine (d : Draft) : Reader Draft := do
  skipSpaces
  if (← sees "\n") || (← sees "\r") || (← sees "#") || (← atEnd) then
    endLine
    return d
  if ← accept "[[" then
    let path ← readKey
    expect "]]"
    endLine
    Draft.ofEntries path (Item.openElement path d.entries)
  else if ← accept "[" then
    let path ← readKey
    expect "]"
    endLine
    Draft.ofEntries path (Item.openTable path d.entries)
  else
    let key ← readKey
    expect "="
    skipSpaces
    let v ← readValue ((← rest).length + 1) nestingLimit
    endLine
    Draft.ofEntries d.path (Item.along (Item.insert v key) d.path d.entries)

/-- Read lines up to the end of the document. -/
def readLines : (fuel : Nat) → Draft → Reader Draft
  | 0, _ => refuse
  | fuel + 1, d => do
    if ← atEnd then return d
    readLines fuel (← readLine d)

/-- The top-level entries of a document; a byte-order mark at its start is ignored. -/
def entries? (text : Text) : Option (List (Text × Value)) :=
  let body := if [0xEF, 0xBB, 0xBF].isPrefixOf text then text.drop 3 else text
  match (readLines (body.length + 1) {}).run body with
  | some (d, []) => some (Item.closeEntries d.entries)
  | _ => none

/-- The parser of the library. -/
instance : DocumentParser := ⟨entries?⟩

end Polyfill.Document
