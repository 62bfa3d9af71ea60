import Polyfill.Document.Blank

/-! # Quoted strings of a document

There are four kinds: basic strings in `"`, with escapes, and literal strings in `'`, without, each on
one line or, with the quote written three times, over several lines. -/

namespace Polyfill.Document

open Scan Reader

/-- The encoding of a code point, if it is one of a character. -/
def encodeCodePoint (n : Nat) : Option Text :=
  if n < 0xD800 ∨ (0xE000 ≤ n ∧ n < 0x110000) then
    some (Text.ofString (String.singleton (Char.ofNat n)))
  else none

/-- The character given by `digits` hexadecimal digits at the front of the text. -/
def readCodePoint (digits : Nat) : Reader Text := do
  let written := (← rest).take digits
  ensure (written.length == digits && written.all isHexDigit)
  modify (·.drop digits)
  match encodeCodePoint (readDigits 16 written) with
  | some t => return t
  | none => refuse

/-- What an escape stands for, read behind its backslash. -/
def readEscape : Reader Text := do
  if ← accept "b" then return [0x08]
  if ← accept "t" then return [0x09]
  if ← accept "n" then return [0x0A]
  if ← accept "f" then return [0x0C]
  if ← accept "r" then return [0x0D]
  if ← accept "e" then return [0x1B]
  if ← accept "\"" then return [0x22]
  if ← accept "\\" then return [0x5C]
  if ← accept "x" then return ← readCodePoint 2
  if ← accept "u" then return ← readCodePoint 4
  expect "U"
  readCodePoint 8

/-- Skip the blanks of a line, and tell whether a line break came after them. -/
def emptyLine : Reader (Option Unit) := do
  skipSpaces
  if ← acceptNewline then return some () else return none

/-- Skip a line continuation behind its backslash, if one comes next: blanks, a line break, and all
blanks and line breaks after it. -/
def acceptContinuation : Reader Bool := do
  let start ← rest
  skipSpaces
  if ← acceptNewline then
    let _ ← collect emptyLine ((← rest).length + 1)
    return true
  set start
  return false

/-- A byte of a string over several lines: no control character, apart from a line break. -/
def readLineByte : Reader Text := do
  if ← accept "\n" then return [0x0A]
  if ← accept "\r\n" then return [0x0D, 0x0A]
  match ← rest with
  | [] => refuse
  | b :: tail =>
    ensure (!isControl b)
    set tail
    return [b]

/-- Read the closing quotes of a string over several lines, with up to two quotes before them. -/
def acceptClosing (quote : UInt8) : Reader (Option Text) := do
  let quotes := ((← rest).takeWhile (· == quote)).length
  if quotes < 3 then return none
  let used := min quotes 5
  modify (·.drop used)
  return some (List.replicate (used - 3) quote)

/-- The rest of a basic string on one line. -/
def readBasic : (fuel : Nat) → Reader Text
  | 0 => refuse
  | fuel + 1 => do
    if ← accept "\"" then return []
    if ← accept "\\" then return (← readEscape) ++ (← readBasic fuel)
    match ← rest with
    | [] => refuse
    | b :: tail =>
      ensure (!isControl b)
      set tail
      return b :: (← readBasic fuel)

/-- The rest of a basic string over several lines. -/
def readBasicLines : (fuel : Nat) → Reader Text
  | 0 => refuse
  | fuel + 1 => do
    match ← acceptClosing 0x22 with
    | some quotes => return quotes
    | none =>
      if ← accept "\\" then
        if ← acceptContinuation then readBasicLines fuel
        else return (← readEscape) ++ (← readBasicLines fuel)
      else return (← readLineByte) ++ (← readBasicLines fuel)

/-- The rest of a literal string on one line. -/
def readLiteral : Reader Text := do
  let body ← readWhile fun b => !isControl b && b != 0x27
  expect "'"
  return body

/-- The rest of a literal string over several lines. -/
def readLiteralLines : (fuel : Nat) → Reader Text
  | 0 => refuse
  | fuel + 1 => do
    match ← acceptClosing 0x27 with
    | some quotes => return quotes
    | none => return (← readLineByte) ++ (← readLiteralLines fuel)

/-- A string on one line. -/
def readLineString : Reader Text := do
  if ← accept "\"" then readBasic ((← rest).length + 1)
  else
    expect "'"
    readLiteral

/-- A string of any kind. -/
def readString : Reader Text := do
  if ← accept "\"\"\"" then
    let _ ← acceptNewline
    readBasicLines ((← rest).length + 1)
  else if ← accept "'''" then
    let _ ← acceptNewline
    readLiteralLines ((← rest).length + 1)
  else readLineString

end Polyfill.Document
