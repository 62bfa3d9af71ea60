import Polyfill.Text.Reader

/-! # Arithmetic

Expressions over integers of 64 bits, with the operators of most programming languages. A name stands for
the value of a variable.

* `arithmetic?`: the value of an expression. -/

namespace Polyfill.Tool

open Scan Reader

/-- An integer. -/
abbrev Number := Int64

namespace Number

/-- A truth value as a number. -/
def ofBool (b : Bool) : Number := if b then 1 else 0

/-- The number as a text. -/
def text (n : Number) : Text := Text.ofString (toString n.toInt)

/-- The number that digits write, in the base their front tells. -/
def ofDigits? (t : Text) : Option Number :=
  let inBase (base : Nat) (digits : Text) (isDigitOfBase : UInt8 → Bool) : Option Number :=
    if !digits.isEmpty && digits.all isDigitOfBase then some (Int64.ofNat (readDigits base digits)) else none
  if t.startsWith "0x" || t.startsWith "0X" then inBase 16 (t.drop 2) isHexDigit
  else if t.startsWith "0" then inBase 8 t isOctalDigit
  else inBase 10 t isDigit

/-- The number that a value writes: nothing is zero. -/
def ofValue? (t : Text) : Option Number :=
  if t.isEmpty then some 0
  else if t.startsWith "-" then (ofDigits? (t.drop 1)).map fun n => -n
  else ofDigits? t

end Number

/-- An operator between two numbers. It gives nothing where it makes no sense. -/
structure BinaryOperator where
  sign : String
  apply : Number → Number → Option Number

/-- The operators by level, those that bind least first. -/
def operatorLevels : List (List BinaryOperator) := [
  [⟨"||", fun a b => some (.ofBool (a != 0 || b != 0))⟩],
  [⟨"&&", fun a b => some (.ofBool (a != 0 && b != 0))⟩],
  [⟨"|", fun a b => some (a ||| b)⟩],
  [⟨"^", fun a b => some (a ^^^ b)⟩],
  [⟨"&", fun a b => some (a &&& b)⟩],
  [⟨"==", fun a b => some (.ofBool (a == b))⟩, ⟨"!=", fun a b => some (.ofBool (a != b))⟩],
  [⟨"<=", fun a b => some (.ofBool (a ≤ b))⟩, ⟨">=", fun a b => some (.ofBool (b ≤ a))⟩,
    ⟨"<", fun a b => some (.ofBool (a < b))⟩, ⟨">", fun a b => some (.ofBool (b < a))⟩],
  [⟨"<<", fun a b => some (a <<< b)⟩, ⟨">>", fun a b => some (a >>> b)⟩],
  [⟨"+", fun a b => some (a + b)⟩, ⟨"-", fun a b => some (a - b)⟩],
  [⟨"*", fun a b => some (a * b)⟩, ⟨"/", fun a b => if b == 0 then none else some (a / b)⟩,
    ⟨"%", fun a b => if b == 0 then none else some (a % b)⟩]]

/-- The signs of all operators, longer ones first. -/
def operatorSigns : List String :=
  let signs := operatorLevels.flatten.map (·.sign)
  signs.filter (·.length == 2) ++ signs.filter (·.length == 1)

/-- Skip blanks. -/
def skipSpace : Reader Unit := do
  let _ ← readWhile fun b => b == 0x20 || b == 0x09 || b == 0x0A

/-- Read an operator of the level, if one comes next. -/
def operatorOf (level : List BinaryOperator) : Reader (Option BinaryOperator) := do
  skipSpace
  let t ← rest
  match operatorSigns.find? t.startsWith with
  | none => return none
  | some sign =>
    match level.find? (·.sign == sign) with
    | none => return none
    | some operator =>
      expect sign
      return some operator

mutual

/-- A choice between two values, or a value. -/
def conditional (value : Text → Text) : (fuel : Nat) → Reader Number
  | 0 => refuse
  | fuel + 1 => do
    let test ← operations value operatorLevels fuel
    skipSpace
    if ← accept "?" then
      let yes ← conditional value fuel
      skipSpace
      expect ":"
      let no ← conditional value fuel
      return if test != 0 then yes else no
    return test

/-- Operands joined by the operators of the first level. -/
def operations (value : Text → Text) (levels : List (List BinaryOperator)) : (fuel : Nat) → Reader Number
  | 0 => refuse
  | fuel + 1 => do
    match levels with
    | [] => operand value fuel
    | level :: higher =>
      let first ← operations value higher fuel
      iterate (fun left => do
        match ← operatorOf level with
        | none => return none
        | some operator => return some (← ofOption (operator.apply left (← operations value higher fuel))))
        ((← rest).length + 1) first

/-- A number, a name or an expression in parentheses, with signs in front of it. -/
def operand (value : Text → Text) : (fuel : Nat) → Reader Number
  | 0 => refuse
  | fuel + 1 => do
    skipSpace
    if ← accept "-" then return -(← operand value fuel)
    else if ← accept "+" then operand value fuel
    else if ← accept "!" then return .ofBool ((← operand value fuel) == 0)
    else if ← accept "~" then return ~~~(← operand value fuel)
    else if ← accept "(" then
      let n ← conditional value fuel
      skipSpace
      expect ")"
      return n
    else
      let word ← readWhile fun b => isLetter b || isDigit b || b == 0x5F
      if word.head?.any isDigit then ofOption (Number.ofDigits? word)
      else
        ensure !word.isEmpty
        ofOption (Number.ofValue? (value word))

end

/-- **The value of an expression**, where `value` gives the values of the variables. -/
def arithmetic? (value : Text → Text) (t : Text) : Option Number := do
  let (n, after) ← (conditional value (16 * t.length + 16)).run t
  if (after.all fun b => b == 0x20 || b == 0x09 || b == 0x0A) then some n else none

end Polyfill.Tool
