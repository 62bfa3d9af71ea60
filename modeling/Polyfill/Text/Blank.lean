import Polyfill.Text.Basic

/-! # White space

White space is the Unicode property `White_Space`, given here by the UTF-8 encodings of its
characters. The tables are small, so trimming tries each encoding in turn; at the end of a text the
reversed encodings are tried on the reversed text. -/

namespace Polyfill

/-- The characters with the property `White_Space`. -/
def blankChars : List Char :=
  ['\t', '\n', '\x0b', '\x0c', '\r', ' ', '\u0085', '\u00a0', '\u1680', '\u2000', '\u2001', '\u2002',
    '\u2003', '\u2004', '\u2005', '\u2006', '\u2007', '\u2008', '\u2009', '\u200a', '\u2028', '\u2029',
    '\u202f', '\u205f', '\u3000']

/-- The encodings of the white-space characters. -/
def blanks : List Text := blankChars.map fun c => Text.ofString (String.singleton c)

/-- The encodings of the white-space characters, each from its last byte to its first. -/
def blanksReversed : List Text := blanks.map List.reverse

/-- The length of the first of the `units` that `t` begins with, `0` if there is none. -/
def leadingUnit (units : List Text) (t : Text) : Nat :=
  ((units.find? (·.isPrefixOf t)).map List.length).getD 0

/-- Drop `skip` bytes, then units as long as the text begins with one. -/
def dropUnits (units : List Text) : (skip : Nat) → Text → Text
  | _, [] => []
  | skip + 1, _ :: rest => dropUnits units skip rest
  | 0, b :: rest =>
    match leadingUnit units (b :: rest) with
    | 0 => b :: rest
    | n + 1 => dropUnits units n rest

namespace Text

/-- The text without its leading white space. -/
def trimStart (t : Text) : Text := dropUnits blanks 0 t

/-- The text without its trailing white space. -/
def trimEnd (t : Text) : Text := (dropUnits blanksReversed 0 t.reverse).reverse

/-- The text without white space at either end. -/
def trim (t : Text) : Text := t.trimStart.trimEnd

/-- The text holds nothing but white space. -/
def isBlank (t : Text) : Bool := t.trim.isEmpty

/-- The text begins with a white-space character. -/
def startsBlank (t : Text) : Bool := leadingUnit blanks t != 0

end Text

end Polyfill
