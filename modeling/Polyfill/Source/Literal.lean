import Polyfill.Text.Basic

/-! # Texts of string literals

The text of a literal is what its escapes make of it. If that is no valid UTF-8, the literal stands for
what is written between its quotes, or, with a `b` in front, for all that is written.

* `unescapeSingle`, `unescapeDouble`: the escapes of the two kinds of literals.
* `literalText`: the text of a literal as it is written. -/

namespace Polyfill.Source

/-- The escapes between single quotes: of a backslash and of a single quote. -/
def unescapeSingle : Text → Text
  | 0x5C :: 0x5C :: t => 0x5C :: unescapeSingle t
  | 0x5C :: 0x27 :: t => 0x27 :: unescapeSingle t
  | b :: t => b :: unescapeSingle t
  | [] => []

/-- The control byte of an escape by one letter. -/
def controlEscape (letter : UInt8) : Option UInt8 :=
  if letter = 0x6E then some 0x0A
  else if letter = 0x74 then some 0x09
  else if letter = 0x72 then some 0x0D
  else if letter = 0x76 then some 0x0B
  else if letter = 0x65 then some 0x1B
  else if letter = 0x66 then some 0x0C
  else if letter = 0x30 then some 0x00
  else none

/-- What the escape at the start of a text between double quotes stands for, and how many bytes the
escape takes. `t` follows the backslash. Of a numeric escape only the low byte counts; a digit that is
not octal keeps its backslash and gets a zero; any other character stands for itself. -/
def doubleEscape (t : Text) : Text × Nat :=
  match t with
  | [] => ([0x5C], 0)
  | b :: after =>
    match controlEscape b with
    | some c => ([c], 1)
    | none =>
      if b = 0x78 then
        match (after.take 2).takeWhile isHexDigit with
        | [] => ([0x5C, 0x78], 1)
        | ds => ([UInt8.ofNat (readDigits 16 ds)], 1 + ds.length)
      else if isOctalDigit b then
        let ds := (t.take 3).takeWhile isOctalDigit
        ([UInt8.ofNat (readDigits 8 ds)], ds.length)
      else if isDigit b then ([0x5C, 0x30, b], 1)
      else ([b], 1)

/-- The escapes between double quotes, behind `skip` bytes that belong to an escape. -/
def unescapeDouble : (skip : Nat) → Text → Text
  | _, [] => []
  | skip + 1, _ :: t => unescapeDouble skip t
  | 0, b :: t =>
    if b = 0x5C then
      let (value, used) := doubleEscape t
      value ++ unescapeDouble used t
    else b :: unescapeDouble 0 t

/-- The text without its first and its last byte. -/
def unquote (t : Text) : Text := (t.drop 1).dropLast

/-- A byte that may stand before the quotes of a literal. -/
def isLiteralMark (b : UInt8) : Bool := b == 0x62 || b == 0x42

/-- The text that the escapes of a literal make, given with its quotes. -/
def unescape (quoted : Text) : Text :=
  match quoted with
  | 0x27 :: _ => unescapeSingle (unquote quoted)
  | _ => unescapeDouble 0 (unquote quoted)

/-- The text of a literal. -/
def literalText (raw : Text) : Text :=
  match raw with
  | [] => []
  | b :: t =>
    if isLiteralMark b then
      if (unescape t).isValid then unescape t else raw
    else if (unescape raw).isValid then unescape raw
    else unquote raw

end Polyfill.Source
