/-! # Text as bytes

All texts of the library (source files, names, mapping documents, paths) are UTF-8, and every offset
counts bytes. A text is therefore a list of bytes: a slice is `take` after `drop`, and a search for a
text inside another never needs to decode.

* `Text.slice`: the bytes of a range.
* `Text.isBoundary`: an offset lies between two characters.
* `Text.sameIgnoringCase`: equality up to the case of ASCII letters.
* `isIdentByte`: the bytes an identifier is made of; every byte of a non-ASCII character is one. -/

namespace Polyfill

/-- A text in UTF-8. -/
abbrev Text := List UInt8

namespace Text

/-- The encoding of a string. -/
def ofString (s : String) : Text := s.toUTF8.data.toList

/-- The string a text encodes, if it is valid UTF-8. -/
def decode? (t : Text) : Option String := String.fromUTF8? ⟨t.toArray⟩

/-- The text for a reader: the string it encodes, empty if it is not valid UTF-8. -/
def display (t : Text) : String := t.decode?.getD ""

/-- The text is valid UTF-8. -/
def isValid (t : Text) : Bool := t.decode?.isSome

/-- The text begins with the given one. -/
def startsWith (t : Text) (s : String) : Bool := (ofString s).isPrefixOf t

/-- The bytes from `start` up to `stop`. -/
def slice (t : Text) (start stop : Nat) : Text := (t.drop start).take (stop - start)

/-- The offset `i` lies at the start or the end of the text or between two characters. -/
def isBoundary (t : Text) (i : Nat) : Bool :=
  match t.drop i with
  | [] => i == t.length
  | b :: _ => b &&& 0xC0 != 0x80

/-- The bytes from `start` up to `stop`, if both are character boundaries in order. -/
def slice? (t : Text) (start stop : Nat) : Option Text :=
  if start ≤ stop ∧ t.isBoundary start ∧ t.isBoundary stop then some (t.slice start stop) else none

/-! ### Lines -/

/-- The lines of a text, without their ends. A text that is empty has none. -/
def lines : Text → List Text
  | [] => []
  | b :: t =>
    match lines t with
    | [] => if b == 0x0A then [[]] else [[b]]
    | line :: more => if b == 0x0A then [] :: line :: more else (b :: line) :: more

/-- The text of lines, each with its end. -/
def ofLines (ls : List Text) : Text := ls.flatMap (· ++ [0x0A])

/-! ### Case -/

/-- The lower-case form of an ASCII capital; every other byte itself. -/
def lowerByte (b : UInt8) : UInt8 := if 0x41 ≤ b ∧ b ≤ 0x5A then b + 0x20 else b

/-- The text with its ASCII capitals made small. -/
def lower (t : Text) : Text := t.map lowerByte

/-- The texts differ at most in the case of ASCII letters. -/
def sameIgnoringCase (a b : Text) : Bool := a.lower == b.lower

end Text

/-! ### Classes of bytes -/

/-- An ASCII digit. -/
def isDigit (b : UInt8) : Bool := 0x30 ≤ b && b ≤ 0x39

/-- An ASCII letter. -/
def isLetter (b : UInt8) : Bool := (0x41 ≤ b && b ≤ 0x5A) || (0x61 ≤ b && b ≤ 0x7A)

/-- A hexadecimal digit. -/
def isHexDigit (b : UInt8) : Bool := isDigit b || (0x41 ≤ b && b ≤ 0x46) || (0x61 ≤ b && b ≤ 0x66)

/-- An octal digit. -/
def isOctalDigit (b : UInt8) : Bool := 0x30 ≤ b && b ≤ 0x37

/-- The value of a digit in bases up to sixteen. -/
def digitValue (b : UInt8) : Nat :=
  if isDigit b then b.toNat - 0x30 else (Text.lowerByte b).toNat - 0x57

/-- A byte that can begin an identifier. -/
def isIdentStart (b : UInt8) : Bool := isLetter b || b == 0x5F || 0x80 ≤ b

/-- A byte that can continue an identifier. -/
def isIdentByte (b : UInt8) : Bool := isIdentStart b || isDigit b

/-- The text begins with a byte of an identifier. -/
def startsInIdent : Text → Bool
  | [] => false
  | b :: _ => isIdentByte b

/-- The number written by digits in the given base. -/
def readDigits (base : Nat) (digits : Text) : Nat :=
  digits.foldl (fun n d => n * base + digitValue d) 0

end Polyfill
