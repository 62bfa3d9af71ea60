import Polyfill.Edit.Basic
import Polyfill.Mapping.Resolve
import Polyfill.Source.Walk

/-! # Renaming declarations

Only declarations get new names: namespaces, and classes at the top level or in a namespace. What refers
to them stays as it is. -/

namespace Polyfill

open Source Mapping

/-- A declaration that gets a new name. -/
structure Rename where
  /-- The declaration is that of a namespace. -/
  isNamespace : Bool
  /-- The declared name. -/
  ident : Ident
  /-- The new name. -/
  target : Text
  deriving DecidableEq

/-- The replacement of the declared name. -/
def Rename.edit (r : Rename) : Edit := ⟨r.ident.span.start, r.ident.span.stop, r.target⟩

/-- The new name of what a statement declares, if it gets one. -/
def renameOf (t : Table) (e : Entry) : Stmt → Option Rename
  | .namespaceDecl _ (some ident) _ => (t.resolveNamespace e ident.text).map (⟨true, ident, ·⟩)
  | .classDecl _ ident _ _ => (t.resolveClass e ident.text).map (⟨false, ident, ·⟩)
  | _ => none

/-- **The renames of a file**, in source order. -/
def renames (t : Table) (e : Entry) (p : Program) : List Rename :=
  (declared p).filterMap (renameOf t e)

end Polyfill
