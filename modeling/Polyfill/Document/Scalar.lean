import Polyfill.Document.Blank
import Polyfill.Document.Value

/-! # Numbers, dates and truth values of a document

A scalar is read as one word, which is then matched against the forms a document allows. What a number
or a date means is of no use to the library, so only its form is checked. -/

namespace Polyfill.Document

open Scan Reader

/-- A byte of a scalar. -/
def isScalarByte (b : UInt8) : Bool :=
  isLetter b || isDigit b || b == 0x2B || b == 0x2D || b == 0x2E || b == 0x3A || b == 0x5F

/-- The text starts with a digit. -/
def startsWithDigit (digit : UInt8 → Bool) : Text → Bool
  | [] => false
  | b :: _ => digit b

/-- The further digits of a group, with single underscores between two of them, and what follows the
group. -/
def splitFurtherDigits (digit : UInt8 → Bool) : Text → Text × Text
  | [] => ([], [])
  | b :: t =>
    if digit b then
      let (ds, after) := splitFurtherDigits digit t
      (b :: ds, after)
    else if b == 0x5F && startsWithDigit digit t then splitFurtherDigits digit t
    else ([], b :: t)

/-- The digits of the group at the start of the text, and what follows the group. -/
def splitDigits (digit : UInt8 → Bool) (t : Text) : Text × Text :=
  if startsWithDigit digit t then splitFurtherDigits digit t else ([], t)

/-- The text without a sign at its start. -/
def dropSign : Text → Text
  | 0x2B :: t => t
  | 0x2D :: t => t
  | t => t

/-- The decimal digits without a superfluous leading zero at the start of the text, and what
follows. -/
def splitWhole (t : Text) : Option Text :=
  match splitDigits isDigit t with
  | ([], _) => none
  | (0x30 :: _ :: _, _) => none
  | (_, after) => some after

/-- The text is one group of at least one digit whose value stays below the limit. -/
def isGroup (base limit : Nat) (digit : UInt8 → Bool) (t : Text) : Bool :=
  match splitDigits digit t with
  | (ds, []) => !ds.isEmpty && readDigits base ds < limit
  | _ => false

/-- A binary digit. -/
def isBinaryDigit (b : UInt8) : Bool := b == 0x30 || b == 0x31

/-- Integers are refused from this value on. -/
def integerLimit : Nat := Nat.pow 2 128

/-- The text is an integer. -/
def isInteger (t : Text) : Bool :=
  match t with
  | 0x30 :: 0x78 :: ds => isGroup 16 integerLimit isHexDigit ds
  | 0x30 :: 0x6F :: ds => isGroup 8 integerLimit isOctalDigit ds
  | 0x30 :: 0x62 :: ds => isGroup 2 integerLimit isBinaryDigit ds
  | 0x2D :: ds => splitWhole ds == some [] && isGroup 10 (integerLimit / 2 + 1) isDigit ds
  | _ => splitWhole (dropSign t) == some [] && isGroup 10 integerLimit isDigit (dropSign t)

/-! ### Floating-point numbers -/

/-- A decimal number without its sign: the digits of its coefficient, and the power of ten by which they
count. -/
structure Decimal where
  digits : Text
  exponent : Int

namespace Decimal

/-- Decimals from this one on are beyond the largest number of double precision, even if rounded. -/
def limit : Nat := Nat.pow 2 1024 - Nat.pow 2 970

/-- The number of places in front of the point. -/
def places (d : Decimal) : Int := d.digits.length + d.exponent

/-- The decimal, whose first digit is not zero, is in the range of numbers of double precision. Its size is
compared with the limit only if the number of its places leaves that open. -/
def isFinite (d : Decimal) : Bool :=
  let value := readDigits 10 d.digits
  if value = 0 || d.places ≤ 308 then true
  else if d.places > 309 then false
  else
    match d.exponent with
    | .ofNat n => value * Nat.pow 10 n < limit
    | .negSucc n => value < limit * Nat.pow 10 (n + 1)

end Decimal

/-- The exponent that the text consists of, from its letter on. -/
def exponentOf : Text → Option Int
  | e :: t =>
    match splitDigits isDigit (dropSign t) with
    | ([], _) => none
    | (ds, []) =>
      if e != 0x65 && e != 0x45 then none
      else if t.head? == some 0x2D then some (-(readDigits 10 ds : Int))
      else some (readDigits 10 ds)
    | _ => none
  | [] => none

/-- The decimal with a fraction or an exponent that the text consists of, in front of which no sign
stands. -/
def decimalOf (t : Text) : Option Decimal :=
  let (whole, after) := splitDigits isDigit t
  match splitWhole t, after with
  | none, _ => none
  | some _, 0x2E :: more =>
    match splitDigits isDigit more with
    | ([], _) => none
    | (ds, []) => some ⟨whole ++ ds, -(ds.length : Int)⟩
    | (ds, e) => (exponentOf e).map fun n => ⟨whole ++ ds, n - ds.length⟩
  | some _, e => (exponentOf e).map fun n => ⟨whole, n⟩

/-- The decimal without zeros in front. -/
def Decimal.trim (d : Decimal) : Decimal := { d with digits := d.digits.dropWhile (· == 0x30) }

/-- The text is a floating-point number that is written as such or in range. -/
def isFloat (t : Text) : Bool :=
  let u := dropSign t
  u == .ofString "inf" || u == .ofString "nan" || (decimalOf u).any (·.trim.isFinite)

/-! ### Dates and times -/

/-- The value of the text if it consists of exactly `n` digits. -/
def fixedDigits (n : Nat) (t : Text) : Option Nat :=
  if t.length = n ∧ t.all isDigit then some (readDigits 10 t) else none

/-- The number of days of a month. -/
def daysIn (year month : Nat) : Nat :=
  if month = 2 then
    if year % 4 = 0 ∧ (year % 100 ≠ 0 ∨ year % 400 = 0) then 29 else 28
  else if month = 4 ∨ month = 6 ∨ month = 9 ∨ month = 11 then 30
  else 31

/-- The text is a date `YYYY-MM-DD`. -/
def isDay (t : Text) : Bool :=
  match fixedDigits 4 (t.take 4), fixedDigits 2 (t.slice 5 7), fixedDigits 2 (t.drop 8) with
  | some year, some month, some day =>
    t[4]? == some 0x2D && t[7]? == some 0x2D &&
      1 ≤ month && month ≤ 12 && 1 ≤ day && day ≤ daysIn year month
  | _, _, _ => false

/-- The text is a clock time `HH:MM`. -/
def isHourMinute (t : Text) : Bool :=
  match fixedDigits 2 (t.take 2), fixedDigits 2 (t.drop 3) with
  | some hour, some minute => t[2]? == some 0x3A && hour < 24 && minute < 60
  | _, _ => false

/-- The text is empty or a fraction of a second. -/
def isFraction : Text → Bool
  | [] => true
  | b :: ds => b == 0x2E && !ds.isEmpty && ds.all isDigit

/-- The text is a time of day, whose seconds may be missing. -/
def isTime (t : Text) : Bool :=
  isHourMinute (t.take 5) &&
    match t.drop 5 with
    | [] => true
    | c :: seconds =>
      c == 0x3A && isFraction (seconds.drop 2) &&
        match fixedDigits 2 (seconds.take 2) with
        | some s => s ≤ 60
        | none => false

/-- The text is a time of day with an optional offset from universal time. -/
def isZonedTime (t : Text) : Bool :=
  let zone := t.dropWhile fun b => isDigit b || b == 0x3A || b == 0x2E
  let time := t.takeWhile fun b => isDigit b || b == 0x3A || b == 0x2E
  isTime time &&
    match zone with
    | [] => true
    | [z] => z == 0x5A || z == 0x7A
    | sign :: offset => (sign == 0x2B || sign == 0x2D) && isHourMinute offset

/-- The text is a date, a time, or both. -/
def isDate (t : Text) : Bool :=
  isDay t || isTime t ||
    (isDay (t.take 10) && isZonedTime (t.drop 11) &&
      match t[10]? with
      | some b => b == 0x54 || b == 0x74 || b == 0x20
      | none => false)

/-- The value written by the word of a scalar. -/
def scalarOf (word : Text) : Option Value :=
  if word == .ofString "true" then some (.boolean true)
  else if word == .ofString "false" then some (.boolean false)
  else if isInteger word || isFloat word then some .number
  else if isDate word then some .date
  else none

/-- Read a scalar. A date may be parted from its time by one space. -/
def readScalar : Reader Value := do
  let word ← readWhile isScalarByte
  let time := (← rest).drop 1
  let whole ←
    if isDay word && (← sees " ") && isHourMinute (time.take 5) then do
      expect " "
      pure (word ++ 0x20 :: (← readWhile isScalarByte))
    else pure word
  match scalarOf whole with
  | some v => return v
  | none => refuse

end Polyfill.Document
