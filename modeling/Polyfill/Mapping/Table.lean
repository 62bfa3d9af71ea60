import Polyfill.Mapping.Views

/-! # The mapping table

The table is made from the declared entries in two passes. The first pass checks each entry and
refuses an identity that is declared again; the second derives the two views and refuses a simple
name that two entries share. An error of the first pass therefore always comes before one of the
second. A namespace with two different targets is no error: the first target stays and a
`NamespaceConflict` is reported, also if the table is refused afterwards.

* `Entry.ofRaw`: the checks of one entry, in their order.
* `Table.ofRaw`: the table of a list of declared entries. -/

namespace Polyfill.Mapping

/-- An entry as it is declared, before any check. -/
structure RawEntry where
  sourcePath : Text
  targetPath : Text
  targetNamespace : Text
  targetClass : Text
  deriving DecidableEq

/-- What can be wrong with one entry. -/
inductive EntryFault where
  | emptyIdentity
  | emptyTargetClass
  | qualifiedTargetClass
  | emptySourcePath
  | emptyTargetPath
  | repeated
  deriving DecidableEq

/-- The wording of a fault. -/
def EntryFault.message : EntryFault → String
  | emptyIdentity => "empty class identity"
  | emptyTargetClass => "empty `target_class`"
  | qualifiedTargetClass => "`target_class` must be a simple name"
  | emptySourcePath => "empty `source_path`"
  | emptyTargetPath => "empty `target_path`"
  | repeated => "declared more than once"

/-- Why a mapping document gives no table. -/
inductive Error where
  /-- The document is no TOML, or not of the expected shape. -/
  | malformed
  /-- The document has no table of classes. -/
  | missingClasses
  /-- The entry declared under `identity` is refused. -/
  | invalidEntry (identity : Text) (fault : EntryFault)
  /-- Two entries share the simple name `name`. -/
  | ambiguousClass (name first second : Text)
  deriving DecidableEq

/-- The wording of an error. -/
def Error.message : Error → String
  | malformed => "malformed mapping document"
  | missingClasses => "mapping document has no top-level `classes` table"
  | invalidEntry identity fault => s!"invalid mapping entry `{identity.display}`: {fault.message}"
  | ambiguousClass name first second =>
    s!"class name `{name.display}` is mapped ambiguously by `{first.display}` and " ++
      s!"`{second.display}`; qualify the mapping table by namespace"

/-- A target that was ignored because its namespace already has another one. -/
structure NamespaceConflict where
  oldNamespace : Text
  ignoredTarget : Text
  identity : Text
  deriving DecidableEq

/-- The wording of a conflict. -/
def NamespaceConflict.message (c : NamespaceConflict) : String :=
  s!"namespace `{c.oldNamespace.display}` has conflicting targets; keeping the first, ignoring " ++
    s!"`{c.ignoredTarget.display}` from `{c.identity.display}`"

/-! ### Entries -/

/-- The entry declared under `identity`, if it passes all checks. -/
def Entry.ofRaw (identity : Text) (raw : RawEntry) : Except EntryFault Entry :=
  let source := Name.normalize identity
  let target := Name.normalize raw.targetClass
  if source.isEmpty || (Name.shortName source).isEmpty then .error .emptyIdentity
  else if target.isEmpty then .error .emptyTargetClass
  else if target.contains Name.separator then .error .qualifiedTargetClass
  else if raw.sourcePath.isEmpty then .error .emptySourcePath
  else if raw.targetPath.isEmpty then .error .emptyTargetPath
  else
    .ok {
      identity := source
      targetNamespace := Name.normalize raw.targetNamespace
      targetClass := target
      sourcePath := raw.sourcePath
      targetPath := raw.targetPath }

/-- The checked entries behind those already `accepted`. -/
def checkEntries (accepted : List Entry) : List (Text × RawEntry) → Except Error (List Entry)
  | [] => .ok accepted
  | (identity, raw) :: rest =>
    match Entry.ofRaw identity raw with
    | .error fault => .error (.invalidEntry identity fault)
    | .ok entry =>
      if accepted.any (·.identity == entry.identity) then .error (.invalidEntry identity .repeated)
      else checkEntries (accepted ++ [entry]) rest

/-! ### Views -/

/-- The views of the entries seen so far. -/
structure Views where
  /-- The entries seen so far, in declared order. -/
  seen : List Entry := []
  namespaces : NamespaceMoves := {}
  classes : ClassRenames := {}

/-- The views of the entries seen together with those that follow, and the conflicts on the way. -/
def Views.extend (v : Views) : List Entry → List NamespaceConflict × Except Error Views
  | [] => ([], .ok v)
  | e :: rest =>
    let (accepted, namespaces) := v.namespaces.insert e.sourceNamespace e.targetNamespace
    let conflict : List NamespaceConflict :=
      if accepted then [] else [⟨e.sourceNamespace, e.targetNamespace, e.identity⟩]
    match v.seen.find? (·.sourceClass == e.sourceClass) with
    | some first => (conflict, .error (.ambiguousClass e.sourceClass first.identity e.identity))
    | none =>
      let (conflicts, result) := Views.extend
        { seen := v.seen ++ [e], namespaces, classes := v.classes.insert e.sourceClass e.targetClass }
        rest
      (conflict ++ conflicts, result)

/-- The mapping table with its views. -/
structure Table where
  /-- The entries in declared order. -/
  entries : List Entry := []
  namespaces : NamespaceMoves := {}
  classes : ClassRenames := {}
  deriving DecidableEq

/-- The table of the declared entries, with the conflicts met on the way. -/
def Table.ofRaw (declared : List (Text × RawEntry)) :
    List NamespaceConflict × Except Error Table :=
  match checkEntries [] declared with
  | .error e => ([], .error e)
  | .ok entries =>
    let (conflicts, result) := Views.extend {} entries
    (conflicts, result.map fun v => ⟨entries, v.namespaces, v.classes⟩)

/-- The entry of a class, given by any spelling of its old name. -/
def Table.get? (t : Table) (identity : Text) : Option Entry :=
  t.entries.find? (·.identity == Name.normalize identity)

end Polyfill.Mapping
