/-! # How strongly operators bind

The higher the level of an operator, the more strongly it binds. An operand is read at a level, and takes
in what binds at least as strongly. -/

namespace Polyfill.Source

/-! ### Levels of constructs -/

/-- The level of a whole expression. -/
def lowestLevel : Nat := 0

/-- The level of what is printed. -/
def printLevel : Nat := 1

/-- The level of what a generator gives. -/
def yieldLevel : Nat := 2

/-- The level of the generator that another one hands on. -/
def delegateLevel : Nat := 3

/-- The level of assignments. -/
def assignmentLevel : Nat := 7

/-- The level of the choice between two expressions. -/
def choiceLevel : Nat := 8

/-- The level of the pipe, which passes a value on to a function. -/
def pipeLevel : Nat := 17

/-- The level of most operators of one operand. -/
def unaryLevel : Nat := 22

/-- The level of the operator that silences errors. -/
def silenceLevel : Nat := 24

/-- The level of copies of objects. -/
def copyLevel : Nat := 26

/-- The level of the operators that count a variable up or down. -/
def countLevel : Nat := 27

/-- The level of references. -/
def referenceLevel : Nat := 28

/-- The level of calls. -/
def callLevel : Nat := 29

/-- The level of the class of a new object: elements and members belong to it, calls do not. -/
def creationLevel : Nat := 30

/-- The level of elements of arrays. -/
def elementLevel : Nat := 31

/-- The level of members of objects and classes. -/
def memberLevel : Nat := 32

/-! ### Operators between two expressions -/

/-- How operators of one level in a row are read. -/
inductive Grouping where
  | left
  | right
  deriving DecidableEq

/-- An operator between two expressions. -/
structure Operator where
  level : Nat
  grouping : Grouping
  deriving DecidableEq

namespace Operator

/-- The level of the operand on the right. -/
def rightLevel (op : Operator) : Nat :=
  match op.grouping with
  | .left => op.level + 1
  | .right => op.level

end Operator

/-- The operator of a spelling. -/
def binaryOperator : String → Option Operator
  | "or" => some ⟨4, .left⟩
  | "xor" => some ⟨5, .left⟩
  | "and" => some ⟨6, .left⟩
  | "??" => some ⟨9, .right⟩
  | "||" => some ⟨10, .left⟩
  | "&&" => some ⟨11, .left⟩
  | "|" => some ⟨12, .left⟩
  | "^" => some ⟨13, .left⟩
  | "&" => some ⟨14, .left⟩
  | "==" | "!=" | "===" | "!==" | "<>" | "<=>" => some ⟨15, .left⟩
  | "<" | "<=" | ">" | ">=" => some ⟨16, .left⟩
  | "." => some ⟨18, .left⟩
  | "<<" | ">>" => some ⟨19, .left⟩
  | "+" | "-" => some ⟨20, .left⟩
  | "*" | "/" | "%" => some ⟨21, .left⟩
  | "instanceof" => some ⟨23, .left⟩
  | "**" => some ⟨25, .right⟩
  | _ => none

/-- The signs that assign. -/
def assignmentSigns : List String :=
  ["=", "+=", "-=", "*=", "/=", ".=", "%=", "**=", "&=", "|=", "^=", "<<=", ">>=", "??="]

/-- The level of the operand behind a sign in front of it. -/
def signLevel : String → Option Nat
  | "!" | "~" | "+" | "-" => some unaryLevel
  | "@" => some silenceLevel
  | "&" => some referenceLevel
  | _ => none

/-- The signs that count a variable up or down. -/
def countSigns : List String := ["++", "--"]

end Polyfill.Source
