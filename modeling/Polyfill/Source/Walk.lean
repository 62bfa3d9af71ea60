import Polyfill.Source.Tree

/-! # Walks through the tree

* `declared`: the statements at the top level and in namespaces, in source order.
* `methodBodies`: the bodies of the methods declared there.
* `listsOf`: the statement lists in a list of statements, at any depth of control structures; what a
  statement that is passed over holds does not count. -/

namespace Polyfill.Source

mutual

/-- The statement, followed by those inside if it is a namespace. -/
def Stmt.declared : Stmt → List Stmt
  | .namespaceDecl span ident ss => .namespaceDecl span ident ss :: declared ss
  | s => [s]

/-- The statements at the top level and in namespaces. -/
def declared : List Stmt → List Stmt
  | [] => []
  | s :: ss => s.declared ++ declared ss

end

/-- The body of a method. -/
def Member.body? : Member → Option Block
  | .method _ _ body => body
  | .other _ => none

/-- The members of a class. -/
def Stmt.members : Stmt → List Member
  | .classDecl _ _ _ ms => ms
  | _ => []

/-- The bodies of the methods of all classes at the top level and in namespaces. -/
def methodBodies (p : Program) : List Block :=
  (declared p).flatMap fun s => s.members.filterMap Member.body?

/-- A statement list, with the range between its braces if it has braces of its own. -/
structure StatementList where
  braces : Option Span
  statements : List Stmt

/-- The statements of a block, with the range between its braces. -/
def Block.list (b : Block) : StatementList := ⟨some ⟨b.opening.stop, b.closing.start⟩, b.statements⟩

mutual

/-- The statement lists inside a statement. -/
def Stmt.lists (skip : Stmt → Bool) : Stmt → List StatementList
  | .block b => b.lists skip
  | .control _ _ bodies => bodyLists skip bodies
  | _ => []

/-- The statement lists in a block, itself first. -/
def Block.lists (skip : Stmt → Bool) : Block → List StatementList
  | .mk opening closing ss => Block.list (.mk opening closing ss) :: listsOf skip ss

/-- The statement lists in a body. -/
def Body.lists (skip : Stmt → Bool) : Body → List StatementList
  | .block b => b.lists skip
  | .list ss => ⟨none, ss⟩ :: listsOf skip ss
  | .single s => s.lists skip

/-- The statement lists in bodies. -/
def bodyLists (skip : Stmt → Bool) : List Body → List StatementList
  | [] => []
  | b :: bs => b.lists skip ++ bodyLists skip bs

/-- The statement lists inside the statements that are not passed over. -/
def listsOf (skip : Stmt → Bool) : List Stmt → List StatementList
  | [] => []
  | s :: ss => (if skip s then [] else s.lists skip) ++ listsOf skip ss

end

/-- The statement lists of all methods, those passed over apart. -/
def visitedLists (skip : Stmt → Bool) (p : Program) : List StatementList :=
  (methodBodies p).flatMap (Block.lists skip)

end Polyfill.Source
