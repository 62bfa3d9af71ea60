import Polyfill.Mapping.Table

/-! # New names of declarations

A declaration in the file of an entry gets its new name from the entry itself, if it declares the
entry's own namespace or class, and from the views of the table otherwise. A name that stays the same
has no new name. -/

namespace Polyfill.Mapping.Table

/-- The new name of a declared namespace in the file of the entry `e`. -/
def resolveNamespace (t : Table) (e : Entry) (declared : Text) : Option Text :=
  let ns := Name.normalize declared
  if ns = e.sourceNamespace then
    if ns = e.targetNamespace then none else some e.targetNamespace
  else t.namespaces.move? ns

/-- The new name of a declared class in the file of the entry `e`. -/
def resolveClass (t : Table) (e : Entry) (declared : Text) : Option Text :=
  if declared = e.sourceClass then
    if declared = e.targetClass then none else some e.targetClass
  else t.classes.get? declared

end Polyfill.Mapping.Table
