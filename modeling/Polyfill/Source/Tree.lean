import Polyfill.Text.Basic

/-! # The tree of a source file

The tree keeps what the library looks at: statement lists and the braces around them, declared names
with their places, imports, calls, string literals and callbacks. Everything else is kept as its parts,
so that every expression of a file stands somewhere in its tree.

* `Stmt`: a statement, with its place in the source.
* `Body`: what a control structure governs: a block, a list without braces of its own (after a colon or
  a `case`), or a single bare statement.
* `Expr`: an expression. -/

namespace Polyfill.Source

/-- A range of bytes of the source. -/
structure Span where
  start : Nat
  stop : Nat
  deriving DecidableEq

/-- A name as it is written, with its place. -/
structure Ident where
  text : Text
  span : Span
  deriving DecidableEq

/-- One imported name, and the name it gets here if that is written. -/
structure Import where
  name : Ident
  newName : Option Ident
  deriving DecidableEq

/-- What an expression without a form of its own is. -/
inductive Shape where
  /-- A variable. -/
  | var
  /-- A property, an array element or a static property. -/
  | access
  /-- An array literal or a list of targets. -/
  | array
  /-- A number, a constant of the language, or a keyword that stands for a class. -/
  | constant
  /-- A constant of a class. -/
  | classConstant
  /-- A string with embedded expressions, or one that spans several lines. -/
  | template
  /-- A call that leaves arguments open. -/
  | openCall
  /-- An operation of one operand. -/
  | unary
  /-- An operand that is counted up or down. -/
  | count
  /-- An assignment. -/
  | assignment
  /-- A choice between expressions. -/
  | choice
  /-- Any other construct of the language. -/
  | construct
  deriving DecidableEq

mutual

/-- An expression. -/
inductive Expr where
  /-- A name that is no keyword. -/
  | name (ident : Ident)
  /-- A string literal, as it is written. -/
  | string (raw : Text)
  /-- An expression in parentheses. -/
  | parens (inner : Expr)
  /-- An operation of two operands. -/
  | binary (left right : Expr)
  /-- A call of a function or of a method of an object. -/
  | call (callee : Expr) (args : List Arg)
  /-- A call of a method of a class. -/
  | staticCall (target : Expr) (method : Selector) (args : List Arg)
  /-- An anonymous function. -/
  | closure (parts : List Expr) (body : Block)
  /-- An anonymous function whose body is an expression. -/
  | arrow (parts : List Expr) (body : Expr)
  /-- The creation of an object of an anonymous class. -/
  | anonymousClass (parts : List Expr) (members : List Member)
  /-- Any other expression, as its parts. -/
  | compound (shape : Shape) (parts : List Expr)

/-- An argument of a call, with its label if it has one. -/
inductive Arg where
  | mk (label : Option Text) (value : Expr)

/-- The member that a call names. -/
inductive Selector where
  | named (ident : Ident)
  | computed (parts : List Expr)

/-- A statement list in braces, with the places of the braces. -/
inductive Block where
  | mk (opening closing : Span) (statements : List Stmt)

/-- What a control structure governs. -/
inductive Body where
  | block (block : Block)
  | list (statements : List Stmt)
  | single (statement : Stmt)

/-- A statement. -/
inductive Stmt where
  /-- An expression with its terminator. -/
  | expression (span : Span) (expr : Expr)
  /-- A block. -/
  | block (block : Block)
  /-- A control structure: the expressions in its heads, and its bodies in source order. -/
  | control (span : Span) (heads : List Expr) (bodies : List Body)
  /-- A namespace with the statements in it. -/
  | namespaceDecl (span : Span) (ident : Option Ident) (statements : List Stmt)
  /-- An import; the imported names if it is of the plain form. -/
  | importDecl (span : Span) (imports : Option (List Import))
  /-- A class, an interface, a trait or an enumeration. -/
  | classDecl (span : Span) (ident : Ident) (parts : List Expr) (members : List Member)
  /-- A function. -/
  | functionDecl (span : Span) (parts : List Expr) (body : Block)
  /-- Any other statement, as its parts. -/
  | other (span : Span) (parts : List Expr) (inner : List Stmt)

/-- A member of a class. -/
inductive Member where
  /-- A method, with its body unless it is abstract. -/
  | method (ident : Ident) (parts : List Expr) (body : Option Block)
  /-- Any other member, as its parts. -/
  | other (parts : List Expr)

end

namespace Arg

/-- The value of an argument. -/
def value : Arg → Expr
  | mk _ v => v

end Arg

namespace Block

/-- The place of the opening brace. -/
def opening : Block → Span
  | mk o _ _ => o

/-- The place of the closing brace. -/
def closing : Block → Span
  | mk _ c _ => c

/-- The statements between the braces. -/
def statements : Block → List Stmt
  | mk _ _ ss => ss

end Block

namespace Stmt

/-- The place of a statement. -/
def span : Stmt → Span
  | expression s _ => s
  | block b => ⟨b.opening.start, b.closing.stop⟩
  | control s _ _ => s
  | namespaceDecl s _ _ => s
  | importDecl s _ => s
  | classDecl s _ _ _ => s
  | functionDecl s _ _ => s
  | other s _ _ => s

end Stmt

namespace Expr

/-- The expression without parentheses around it. -/
def unwrap : Expr → Expr
  | parens inner => inner.unwrap
  | e => e

end Expr

mutual

/-- The expression as the target of an assignment of `value`. All other operators of one or two operands
and choices bind more strongly, so what takes the value is their last operand. -/
def Expr.assign (value : Expr) : Expr → Expr
  | .binary left right => .binary left (Expr.assign value right)
  | .compound .unary parts => .compound .unary (assignLast value parts)
  | .compound .choice parts => .compound .choice (assignLast value parts)
  | target => .compound .assignment [target, value]

/-- The operands with the last one as the target of an assignment of `value`. -/
def assignLast (value : Expr) : List Expr → List Expr
  | [] => []
  | [e] => [Expr.assign value e]
  | e :: es => e :: assignLast value es

end

/-- The statements of a source file. -/
abbrev Program := List Stmt

end Polyfill.Source
