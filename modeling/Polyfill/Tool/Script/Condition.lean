import Polyfill.Tool.Condition

/-! # Conditions in scripts

A script has a condition of its own, with fewer operators than the program of the same name. An argument
is an operator or an operand by its kind and by what follows it. A reader stands at an argument and leaves
the place at the last argument it used, so that it can look at the next one.

* `Script.condition`: the exit code of a condition in a script. -/

namespace Polyfill.Tool.Script

/-- The kind of an argument. -/
inductive Kind where
  /-- There is no argument. -/
  | missing
  | operand
  | unary
  | binary
  | negation
  | conjunction
  | disjunction
  | opening
  | closing
  deriving DecidableEq

/-- The kind of an operator, none for another text. -/
def operatorKind? (a : Text) : Option Kind :=
  match a.display with
  | "!" => some .negation
  | "-a" => some .conjunction
  | "-o" => some .disjunction
  | "(" => some .opening
  | ")" => some .closing
  | "=" | "!=" | "<" | ">" | "-eq" | "-ne" | "-ge" | "-gt" | "-le" | "-lt" | "-nt" | "-ot" | "-ef" =>
    some .binary
  | "-r" | "-w" | "-x" | "-e" | "-f" | "-d" | "-c" | "-b" | "-p" | "-u" | "-g" | "-k" | "-s" | "-t" | "-z"
  | "-n" | "-h" | "-O" | "-G" | "-L" | "-S" => some .unary
  | _ => none

/-- An operator of one operand is itself an operand if the arguments behind it leave no other reading. -/
def isOperandBefore : List Text → Bool
  | [] => true
  | [_] => false
  | a :: _ :: _ => operatorKind? a == some .binary

/-- The kind of the first of the arguments. -/
def kindOf : List Text → Kind
  | [] => .missing
  | a :: more =>
    match operatorKind? a with
    | none => .operand
    | some .unary => if isOperandBefore more then .operand else .unary
    | some .opening => if more.isEmpty then .operand else .opening
    | some k => k

/-- The condition `left operator right`. -/
def binaryCondition? (v : Standpoint) (left operator right : Text) : Option Bool :=
  match operator.display with
  | "<" => some (decide (left < right))
  | ">" => some (decide (right < left))
  | _ => (binaryOperator? v operator).bind fun holds => holds ⟨left, false⟩ ⟨right, false⟩

mutual

/-- Terms joined by `-o`. -/
def disjunction (v : Standpoint) : (fuel : Nat) → Kind → List Text → Option (Bool × List Text)
  | 0, _, _ => none
  | fuel + 1, k, place => do
    let (first, last) ← conjunction v fuel k place
    if kindOf (last.drop 1) == .disjunction then
      let (second, last) ← disjunction v fuel (kindOf (last.drop 2)) (last.drop 2)
      return (first || second, last)
    return (first, last)

/-- Terms joined by `-a`. -/
def conjunction (v : Standpoint) : (fuel : Nat) → Kind → List Text → Option (Bool × List Text)
  | 0, _, _ => none
  | fuel + 1, k, place => do
    let (first, last) ← negation v fuel k place
    if kindOf (last.drop 1) == .conjunction then
      let (second, last) ← conjunction v fuel (kindOf (last.drop 2)) (last.drop 2)
      return (first && second, last)
    return (first, last)

/-- A term that may be negated. -/
def negation (v : Standpoint) : (fuel : Nat) → Kind → List Text → Option (Bool × List Text)
  | 0, _, _ => none
  | fuel + 1, k, place => do
    if k == .negation then
      let k := kindOf (place.drop 1)
      let (holds, last) ← negation v fuel k (if k == .missing then place else place.drop 1)
      return (!holds, last)
    term v fuel k place

/-- A term: a condition in parentheses, an operator with its operands, or a text. -/
def term (v : Standpoint) : (fuel : Nat) → Kind → List Text → Option (Bool × List Text)
  | 0, _, _ => none
  | fuel + 1, k, place => do
    match k, place with
    | .missing, _ => return (false, place)
    | _, [] => none
    | .opening, _ :: inside =>
      if kindOf inside == .closing then return (false, inside)
      let (holds, last) ← disjunction v fuel (kindOf inside) inside
      if kindOf (last.drop 1) == .closing then return (holds, last.drop 1) else none
    | .unary, operator :: operand :: more =>
      return (← unaryCondition? v operator operand, operand :: more)
    | _, left :: operator :: right :: more =>
      if kindOf (operator :: right :: more) == .binary then
        return (← binaryCondition? v left operator right, right :: more)
      return (!left.isEmpty, place)
    | _, left :: more => if kindOf more == .binary then none else return (!left.isEmpty, place)

end

/-- Whether a condition holds that is read without regard to the number of its arguments, if it makes sense;
the first of them is of the given kind. -/
def whole? (v : Standpoint) (k : Kind) (arguments : List Text) : Option Bool := do
  let (holds, last) ← disjunction v (4 * arguments.length + 4) k arguments
  if (last.drop 1).isEmpty then some holds else none

/-- Whether a condition holds, if it makes sense. Three or four arguments are read by their number first: an
operator in the middle, parentheses around the rest, or negations in front, which count as one. -/
def holds? (v : Standpoint) (isNegated : Bool) : List Text → Option Bool
  | [] => some false
  | a :: rest =>
    let isShort := rest.length == 2 || rest.length == 3
    if rest.length == 2 && (rest.head?.bind operatorKind?) == some .binary then
      (whole? v .operand (a :: rest)).map (· != isNegated)
    else if isShort && a.display == "(" && rest.getLast?.any (·.display == ")") then
      (whole? v (kindOf rest.dropLast) rest.dropLast).map (· != isNegated)
    else if isShort && a.display == "!" then holds? v true rest
    else (whole? v (kindOf (a :: rest)) (a :: rest)).map (· != isNegated)

/-- **The exit code of a condition in a script.** -/
def condition (v : Standpoint) (arguments : List Text) : Nat :=
  match holds? v false arguments with
  | some true => 0
  | some false => 1
  | none => badCondition

end Polyfill.Tool.Script
