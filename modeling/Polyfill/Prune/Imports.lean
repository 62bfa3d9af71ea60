import Polyfill.Name
import Polyfill.Prune.Lists
import Polyfill.Text.Search

/-! # Imports of the facade

A file may import the facade under another name; that name then stands for the facade in calls. A
statement that imports nothing but the facade goes once its name is no longer used, that is if every
whole word equal to it, up to case, lies in the statement itself or in a deleted range. -/

namespace Polyfill.Prune

open Source

/-- An import of the facade. -/
structure FacadeImport where
  /-- The place of the whole statement. -/
  span : Span
  /-- The name of the facade in this file. -/
  localName : Text
  /-- The statement imports nothing else. -/
  sole : Bool
  deriving DecidableEq

/-- The name that an imported name gets. -/
def importedName (i : Import) : Text :=
  match i.newName with
  | some ident => ident.text
  | none => Name.shortName i.name.text

/-- The imports of the facade in a statement. -/
def facadeImportsIn (facade : Text) : Stmt → List FacadeImport
  | .importDecl span (some imports) =>
    (imports.filter fun i => Text.sameIgnoringCase (Name.shortName i.name.text) facade).map fun i =>
      ⟨span, importedName i, imports.length == 1⟩
  | _ => []

/-- The imports of the facade in a file. -/
def facadeImports (facade : Text) (p : Program) : List FacadeImport :=
  (declared p).flatMap (facadeImportsIn facade)

/-- The names, other than its own, under which a file imports the facade. -/
def facadeAliases (facade : Text) (p : Program) : List Text :=
  ((facadeImports facade p).map (·.localName)).filter (!Text.sameIgnoringCase · facade)

/-- The name of the import is used outside the import and the deleted ranges. -/
def isUsed (source : Text) (edits : List Edit) (i : FacadeImport) : Bool :=
  (Text.wholeWords i.localName source).any fun pos =>
    !(i.span.start ≤ pos && pos < i.span.stop) && !edits.any (·.touches pos)

/-- The imports that go, in order: those that are not used, where every import that goes counts as
deleted for those behind it. -/
def unusedImports (source : Text) (edits : List Edit) : List FacadeImport → List FacadeImport
  | [] => []
  | i :: is =>
    if isUsed source edits i then unusedImports source edits is
    else i :: unusedImports source (edits ++ [deleteLines source i.span]) is

/-- The imports that go, with their deletions. The text of each is written to the log. -/
def unusedImports? (source : Text) (edits : List Edit) : List FacadeImport → Option (List (FacadeImport × Edit))
  | [] => some []
  | i :: is =>
    if isUsed source edits i then unusedImports? source edits is
    else do
      let _ ← textAt? source i.span
      let deletion ← deleteLines? source i.span
      return (i, deletion) :: (← unusedImports? source (edits ++ [deletion]) is)

end Polyfill.Prune
