import Polyfill.Disk.Lookup
import Polyfill.Scan

/-! # Conditions

A condition is a row of arguments. Up to four of them are read by their number alone, so that an argument
that looks like an operator can still be an operand; more of them are read as an expression with `-o`,
`-a`, `!` and parentheses. All parts of an expression are judged, also those that cannot change the
result, so an error in any of them is an error of the whole.

* `condition`: the exit code of a condition. -/

namespace Polyfill.Tool

open Scan

/-- A reader of arguments. -/
abbrev Arguments := Scan (List Text)

namespace Arguments

/-- The next argument. -/
def next : Arguments Text := do
  match ← get with
  | [] => refuse
  | a :: rest =>
    set rest
    return a

/-- The argument `n` places ahead is the given one. -/
def sees (n : Nat) (s : String) : Arguments Bool := return (← get)[n]? == some (Text.ofString s)

/-- Read the given argument if it comes next, and tell whether it did. -/
def accept (s : String) : Arguments Bool := do
  if ← sees 0 s then
    let _ ← next
    return true
  else return false

end Arguments

open Arguments

/-! ### Operators -/

/-- The integer that a text writes, with blanks around it. -/
def integer? (t : Text) : Option Int :=
  let isBlank (b : UInt8) : Bool := b == 0x20 || (0x09 ≤ b && b ≤ 0x0D)
  let start := t.dropWhile isBlank
  let body := match start with
    | 0x2B :: rest => rest
    | 0x2D :: rest => rest
    | rest => rest
  let digits := body.takeWhile isDigit
  if digits.isEmpty || !(body.drop digits.length).all isBlank then none
  else if start.head? == some 0x2D then some (-(readDigits 10 digits : Int))
  else some (readDigits 10 digits)

/-- The argument has the form of an operator of one operand. -/
def isUnary (a : Text) : Bool := a.length == 2 && a.head? == some 0x2D

/-- The condition `operator operand`, if it makes sense. Nothing on the disk is a link, a device or a
terminal, and every file can be read and written, but not run. -/
def unaryCondition? (v : Standpoint) (operator operand : Text) : Option Bool :=
  match operator.display with
  | "-d" => some (v.disk.isDirectory (v.place operand))
  | "-f" => some (v.disk.isFile (v.place operand))
  | "-x" => some (v.disk.isDirectory (v.place operand))
  | "-e" | "-r" | "-w" | "-O" | "-G" | "-N" => some (v.disk.has (v.place operand))
  | "-s" =>
    some (match v.disk.find (v.place operand) with
      | .ok (.file content) => !content.isEmpty
      | .ok .directory => true
      | .error _ => false)
  | "-h" | "-L" | "-b" | "-c" | "-p" | "-S" | "-g" | "-k" | "-u" => some false
  | "-t" => (integer? operand).map fun _ => false
  | "-n" => some !operand.isEmpty
  | "-z" => some operand.isEmpty
  | _ => none

/-- The place of what stands at a path. -/
def placeOf? (v : Standpoint) (p : Path) : Option Location :=
  let path := v.place p
  if v.disk.has path then (v.disk.locate path).toOption.map (·.location) else none

/-- An operand of an operator of two operands. -/
structure Operand where
  text : Text
  /-- The operand is the number of bytes of the text. -/
  isLength : Bool := false

/-- The integer an operand means. -/
def Operand.integer? (o : Operand) : Option Int :=
  if o.isLength then some o.text.length else Tool.integer? o.text

/-- The condition `left operator right` on two integers. -/
def compare? (holds : Int → Int → Bool) (left right : Operand) : Option Bool := do
  return holds (← left.integer?) (← right.integer?)

/-- The condition `left operator right` on the places of two paths. A length is no path. -/
def comparePlaces? (v : Standpoint) (holds : Option Location → Option Location → Bool)
    (left right : Operand) : Option Bool :=
  if left.isLength || right.isLength then none
  else some (holds (placeOf? v left.text) (placeOf? v right.text))

/-- The operands are the same text; a length on the right is never the same. -/
def Operand.isSame (left right : Operand) : Bool := !right.isLength && left.text == right.text

/-- The meaning of an operator of two operands, if it is one. All that is there is of the same age. -/
def binaryOperator? (v : Standpoint) (operator : Text) : Option (Operand → Operand → Option Bool) :=
  match operator.display with
  | "=" | "==" => some fun left right => some (left.isSame right)
  | "!=" => some fun left right => some !(left.isSame right)
  | "-eq" => some (compare? (· == ·))
  | "-ne" => some (compare? (· != ·))
  | "-lt" => some (compare? (· < ·))
  | "-le" => some (compare? (· ≤ ·))
  | "-gt" => some (compare? (· > ·))
  | "-ge" => some (compare? (· ≥ ·))
  | "-ef" => some (comparePlaces? v fun left right => left.isSome && left == right)
  | "-nt" => some (comparePlaces? v fun left right => left.isSome && right.isNone)
  | "-ot" => some (comparePlaces? v fun left right => right.isSome && left.isNone)
  | _ => none

/-! ### Reading by number -/

/-- An argument that is not empty. -/
def oneArgument : Arguments Bool := return !(← next).isEmpty

/-- An operator with its operand. -/
def unary (v : Standpoint) : Arguments Bool := do
  let operator ← next
  ofOption (unaryCondition? v operator (← next))

/-- An operator between its operands. The mark `-l` makes the text behind it a length; in front of the
operator it counts only if `leftIsLength` tells so. -/
def binary (v : Standpoint) (leftIsLength : Bool) : Arguments Bool := do
  if leftIsLength then
    let _ ← next
  let left ← next
  let operator ← next
  let rightIsLength := (← sees 0 "-l") && 2 ≤ (← get).length
  if rightIsLength then
    let _ ← next
  match binaryOperator? v operator with
  | none => refuse
  | some holds => ofOption (holds ⟨left, leftIsLength⟩ ⟨← next, rightIsLength⟩)

/-- The argument `n` places ahead is an operator of two operands. -/
def seesBinary (v : Standpoint) (n : Nat) : Arguments Bool :=
  return (← get)[n]?.any fun a => (binaryOperator? v a).isSome

/-- A condition of two arguments. -/
def twoArguments (v : Standpoint) : Arguments Bool := do
  if ← accept "!" then return !(← oneArgument)
  ensure ((← get).head?.any isUnary)
  unary v

/-- A condition of three arguments; `expression` reads one that is none of the short forms. -/
def threeArguments (v : Standpoint) (expression : Arguments Bool) : Arguments Bool := do
  if ← seesBinary v 1 then binary v false
  else if ← accept "!" then return !(← twoArguments v)
  else if (← sees 0 "(") && (← sees 2 ")") then
    let _ ← next
    let holds ← oneArgument
    let _ ← next
    return holds
  else
    ensure ((← sees 1 "-a") || (← sees 1 "-o"))
    expression

/-- A condition of the given number of arguments. -/
def byNumber (v : Standpoint) (expression : Arguments Bool) (n : Nat) : Arguments Bool := do
  match n with
  | 0 => refuse
  | 1 => oneArgument
  | 2 => twoArguments v
  | 3 => threeArguments v expression
  | 4 =>
    if ← accept "!" then return !(← threeArguments v expression)
    if (← sees 0 "(") && (← sees 3 ")") then
      let _ ← next
      let holds ← twoArguments v
      let _ ← next
      return holds
    expression
  | _ => expression

/-! ### Expressions -/

/-- How many arguments stand in front of the closing parenthesis, if they are at most four; otherwise the
number of all that are left. -/
def enclosedNumber (arguments : List Text) : Nat :=
  let n := (arguments.drop 1).takeWhile (· != Text.ofString ")") |>.length
  if n < 4 then n + 1 else arguments.length

mutual

/-- Terms joined by `-o` and `-a`. -/
def expressionOf (v : Standpoint) : (fuel : Nat) → Arguments Bool
  | 0 => refuse
  | fuel + 1 => do
    let first ← conjunctionOf v fuel
    if ← accept "-o" then return first || (← expressionOf v fuel)
    return first

/-- Terms joined by `-a`. -/
def conjunctionOf (v : Standpoint) : (fuel : Nat) → Arguments Bool
  | 0 => refuse
  | fuel + 1 => do
    let first ← termOf v fuel
    if ← accept "-a" then return first && (← conjunctionOf v fuel)
    return first

/-- A term: a condition that may be negated or stand in parentheses. -/
def termOf (v : Standpoint) : (fuel : Nat) → Arguments Bool
  | 0 => refuse
  | fuel + 1 => do
    if ← accept "!" then return !(← termOf v fuel)
    if ← accept "(" then
      let holds ← byNumber v (expressionOf v fuel) (enclosedNumber (← get))
      ensure (← accept ")")
      return holds
    if (← get).length ≥ 4 && (← sees 0 "-l") && (← seesBinary v 2) then return ← binary v true
    if (← get).length ≥ 3 && (← seesBinary v 1) then return ← binary v false
    if (← get).head?.any isUnary then return ← unary v
    oneArgument

end

/-- The code of a condition that makes no sense. -/
def badCondition : Nat := 2

/-- **The exit code of a condition**: `0` if it holds, `1` if it does not, and `2` if it is none. -/
def condition (v : Standpoint) (arguments : List Text) : Nat :=
  if arguments.isEmpty then 1
  else
    let expression := expressionOf v (3 * arguments.length + 3)
    match (byNumber v expression arguments.length).run arguments with
    | some (true, []) => 0
    | some (false, []) => 1
    | _ => badCondition

end Polyfill.Tool
