import Polyfill.Name
import Polyfill.Source.Token
import Polyfill.Text.Search

/-! # Lexemes

How far the simple lexemes at the start of a text reach: blanks, comments, names, numbers, literals,
conversions and signs. -/

namespace Polyfill.Source

/-- White space of the code. -/
def isCodeBlank (b : UInt8) : Bool := b == 0x20 || (0x09 ≤ b && b ≤ 0x0D)

/-- The first byte of the text meets the condition. -/
def headIs (condition : UInt8 → Bool) : Text → Bool
  | [] => false
  | b :: _ => condition b

/-- The bytes read as characters. -/
def spelling (t : Text) : String := String.ofList (t.map fun b => Char.ofNat b.toNat)

/-! ### Comments -/

/-- The length of a comment that ends with its line, or in front of a closing tag. -/
def lineCommentLength : Text → Nat
  | [] => 0
  | b :: t =>
    if b == 0x0A || b == 0x0D || (b == 0x3F && headIs (· == 0x3E) t) then 0
    else lineCommentLength t + 1

/-- The length of a comment that starts with `/*`, if it is closed. -/
def blockCommentLength? (t : Text) : Option Nat :=
  (Text.after? (.ofString "*/") (t.drop 2)).map fun after => t.length - after.length

/-- The length of the blanks or of the comment at the start of the text, `some 0` if there are none,
and `none` if a comment is not closed. -/
def trivia? (t : Text) : Option Nat :=
  if headIs isCodeBlank t then some (t.takeWhile isCodeBlank).length
  else if t.startsWith "//" then some (lineCommentLength t)
  else if t.startsWith "#" && !t.startsWith "#[" then some (lineCommentLength t)
  else if t.startsWith "/*" then blockCommentLength? t
  else some 0

/-! ### Names -/

/-- The length of a name: identifiers joined by single separators, of which one may stand in front. -/
def nameLength : Text → Nat
  | [] => 0
  | b :: t =>
    if isIdentByte b || (b == Name.separator && headIs isIdentStart t) then nameLength t + 1 else 0

/-- The length of the identifier at the start of the text. -/
def identLength (t : Text) : Nat := (t.takeWhile isIdentByte).length

/-- The mark behind a modifier that limits it to the setting of a property. -/
def setMark : Text := .ofString "(set)"

/-- The length of the mark that makes one word with the modifier `name` in front of it, `0` if there is
none. -/
def setMarkLength (name after : Text) : Nat :=
  if ["public", "protected", "private"].contains (spelling name.lower) &&
      Text.sameIgnoringCase (after.take setMark.length) setMark then setMark.length
  else 0

/-- The length of a name or of a word with its mark. In an embedded expression a separator is no part of
a name that starts with an identifier. -/
def wordLength (embedded : Bool) (t : Text) : Nat :=
  let n := if embedded && headIs isIdentStart t then identLength t else nameLength t
  n + setMarkLength (t.take n) (t.drop n)

/-- The kind of a name. -/
def nameKind (name : Text) : TokenKind :=
  if name.contains Name.separator then .qualified else .word (spelling name.lower)

/-! ### Numbers -/

/-- The length of digits with single underscores between two of them. -/
def digitsLength (digit : UInt8 → Bool) : Text → Nat
  | [] => 0
  | b :: t =>
    if digit b || (b == 0x5F && headIs digit t) then digitsLength digit t + 1 else 0

/-- The length of digits at the start of the text; `0` if it starts otherwise. -/
def groupLength (digit : UInt8 → Bool) (t : Text) : Nat :=
  if headIs digit t then digitsLength digit t else 0

/-- A binary digit. -/
def isBinaryDigit (b : UInt8) : Bool := b == 0x30 || b == 0x31

/-- The digits of the base that a letter behind a zero announces. -/
def baseDigits (letter : UInt8) : Option (UInt8 → Bool) :=
  if letter == 0x78 || letter == 0x58 then some isHexDigit
  else if letter == 0x62 || letter == 0x42 then some isBinaryDigit
  else if letter == 0x6F || letter == 0x4F then some isOctalDigit
  else none

/-- The length of a number with the mark of a base, `0` if there is none. -/
def basedLength : Text → Nat
  | 0x30 :: letter :: t =>
    match baseDigits letter with
    | none => 0
    | some digit => if headIs digit t then 2 + digitsLength digit t else 0
  | _ => 0

/-- The length of a point and the digits behind it, `0` if there is no point. -/
def fractionLength : Text → Nat
  | 0x2E :: t => 1 + groupLength isDigit t
  | _ => 0

/-- The length of an exponent, `0` if there is none. -/
def exponentLength : Text → Nat
  | e :: t =>
    if e == 0x65 || e == 0x45 then
      let sign := if headIs (fun b => b == 0x2B || b == 0x2D) t then 1 else 0
      let digits := groupLength isDigit (t.drop sign)
      if digits = 0 then 0 else 1 + sign + digits
    else 0
  | [] => 0

/-- The length of a decimal or octal number, unless it is an octal one with a digit beyond seven. -/
def decimalLength? (t : Text) : Option Nat :=
  let whole := groupLength isDigit t
  let fraction := fractionLength (t.drop whole)
  let exponent := exponentLength (t.drop (whole + fraction))
  let digits := t.take whole
  if fraction + exponent = 0 && whole > 1 && headIs (· == 0x30) t &&
      !digits.all (fun b => isOctalDigit b || b == 0x5F) then none
  else some (whole + fraction + exponent)

/-- The length of a number. -/
def numberLength? (t : Text) : Option Nat :=
  match basedLength t with
  | 0 => decimalLength? t
  | n => some n

/-! ### Literals -/

/-- The length of a quoted text behind its opening quote, with the closing one; `none` if it is not
closed. A backslash takes its meaning from the closing quote. -/
def quotedLength? (quote : UInt8) : (escaped : Bool) → Text → Option Nat
  | _, [] => none
  | escaped, b :: t =>
    if b == quote && !escaped then some 1
    else (quotedLength? quote (b == 0x5C && !escaped) t).map (· + 1)

/-- Text between double quotes, behind the opening one, embeds no expression. -/
def isPlainDouble : (skip : Bool) → Text → Bool
  | _, [] => true
  | true, _ :: t => isPlainDouble false t
  | false, b :: t =>
    if b == 0x22 then true
    else if b == 0x5C then isPlainDouble true t
    else if b == 0x24 && headIs (fun c => isIdentStart c || c == 0x7B) t then false
    else if b == 0x7B && headIs (· == 0x24) t then false
    else isPlainDouble false t

/-! ### Conversions and signs -/

/-- The names of types in a conversion. -/
def castTypes : List String :=
  ["int", "integer", "bool", "boolean", "float", "double", "real", "string", "binary", "array",
    "object", "unset", "void"]

/-- The length of the text up to the end of a pattern, if the text starts with the pattern, in whatever
case, with blanks before any of its bytes. -/
def spacedLength? : (pattern : Text) → Text → Option Nat
  | [], _ => some 0
  | _ :: _, [] => none
  | p :: ps, b :: t =>
    if isCodeBlank b then (spacedLength? (p :: ps) t).map (· + 1)
    else if Text.lowerByte b == p then (spacedLength? ps t).map (· + 1)
    else none

/-- The length of a conversion, a type in parentheses, if the text starts with one. -/
def castLength? (t : Text) : Option Nat :=
  if t.startsWith "(" then
    castTypes.findSome? fun type => spacedLength? (.ofString ("(" ++ type ++ ")")) t
  else none

/-- The signs, the longer ones first. -/
def signs : List String :=
  ["<=>", "**=", "...", "<<=", ">>=", "===", "!==", "??=", "?->", "**", "++", "--", "->", "=>", "::",
    "==", "!=", "<>", "<=", ">=", "&&", "||", "??", "|>", "+=", "-=", "*=", "/=", ".=", "%=", "&=",
    "|=", "^=", "<<", ">>", "#[", ";", ":", ",", ".", "[", "]", "(", ")", "|", "^", "&", "+", "-", "*",
    "/", "=", "%", "!", "~", "$\x7b", "$", "<", ">", "?", "@", "\x7b", "\x7d", "\\"]

/-- The longest sign the text starts with. -/
def sign? (t : Text) : Option String := signs.find? t.startsWith

end Polyfill.Source
