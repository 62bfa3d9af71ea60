import Polyfill.Name

/-! # Entries of the mapping table

An entry says where an old class comes from and where its polyfill goes. -/

namespace Polyfill.Mapping

/-- One row of the mapping table. -/
structure Entry where
  /-- The fully qualified old name of the class, in canonical form. -/
  identity : Text
  /-- The new namespace in canonical form, empty for the global one. -/
  targetNamespace : Text
  /-- The new simple name. -/
  targetClass : Text
  /-- The file of the class below the source root. -/
  sourcePath : Text
  /-- The generated file below the output root. -/
  targetPath : Text
  deriving DecidableEq

namespace Entry

/-- The old namespace. -/
def sourceNamespace (e : Entry) : Text := Name.namespaceOf e.identity

/-- The old simple name. -/
def sourceClass (e : Entry) : Text := Name.shortName e.identity

/-- The fully qualified new name. -/
def targetIdentity (e : Entry) : Text := Name.join e.targetNamespace e.targetClass

end Entry

end Polyfill.Mapping
