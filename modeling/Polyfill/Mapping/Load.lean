import Polyfill.Document.DocumentParser
import Polyfill.Mapping.Table
import Polyfill.Notice.Settings

/-! # Loading the mapping document

The document has a table `classes` (or `mappings`), keyed by the old names of the classes, and an
optional table `detector`. The shape of both is checked before anything else; other top-level keys are
ignored. A table with fixed keys may also be written as an array of its values in declared order. -/

namespace Polyfill.Mapping

open Document

/-- What a run needs from the mapping document. -/
structure Config where
  table : Table := {}
  settings : Notice.Settings := {}
  deriving DecidableEq

/-- A string. -/
def stringOf : Value → Option Text
  | .string t => some t
  | _ => none

/-- A list of strings. -/
def stringsOf : Value → Option (List Text)
  | .array vs => vs.mapM stringOf
  | _ => none

/-- A truth value. -/
def booleanOf : Value → Option Bool
  | .boolean b => some b
  | _ => none

/-- The value of the key in a table. -/
def valueAt (key : String) (es : List (Text × Value)) : Option Value := es.lookup (.ofString key)

/-- Every key of the table is one of those given. -/
def hasOnlyKeys (keys : List String) (es : List (Text × Value)) : Bool :=
  es.all fun e => (keys.map Text.ofString).contains e.1

/-- The fields of a record, in declared order: the values of its keys in a table without other keys, or
the elements of an array. -/
def fieldsOf (keys : List String) : Value → Option (List (Option Value))
  | .table es => if hasOnlyKeys keys es then some (keys.map (valueAt · es)) else none
  | .array vs => some ((List.range keys.length).map (vs[·]?))
  | _ => none

/-- The entry a value declares. -/
def rawEntryOf (v : Value) : Option RawEntry := do
  match ← fieldsOf ["source_path", "target_path", "target_namespace", "target_class"] v with
  | [some sourcePath, some targetPath, some targetNamespace, some targetClass] =>
    return {
      sourcePath := ← stringOf sourcePath
      targetPath := ← stringOf targetPath
      targetNamespace := ← stringOf targetNamespace
      targetClass := ← stringOf targetClass }
  | _ => none

/-- The field as `read` gives it, or the default if it is missing. -/
def fieldOr {α : Type} (read : Value → Option α) (default : α) : Option Value → Option α
  | none => some default
  | some v => read v

/-- The settings a value declares; what it leaves out keeps its default. -/
def settingsOf (v : Value) : Option Notice.Settings := do
  let base : Notice.Settings := {}
  match ← fieldsOf ["class", "notice_methods", "wrapper_methods", "phrases", "config_aware"] v with
  | [facade, noticeMethods, wrapperMethods, phrases, configAware] =>
    return {
      facade := ← fieldOr stringOf base.facade facade
      noticeMethods := ← fieldOr stringsOf base.noticeMethods noticeMethods
      wrapperMethods := ← fieldOr stringsOf base.wrapperMethods wrapperMethods
      phrases := ← fieldOr stringsOf base.phrases phrases
      configAware := ← fieldOr booleanOf base.configAware configAware }
  | _ => none

/-- The entries a table of classes declares. -/
def declaredEntries : Value → Option (List (Text × RawEntry))
  | .table es => es.mapM fun e => (rawEntryOf e.2).map (e.1, ·)
  | _ => none

/-- The parts of a well-shaped document. -/
structure Shape where
  settings : Notice.Settings
  /-- The declared entries, if there is a table of classes. -/
  classes : Option (List (Text × RawEntry))

/-- The parts of a document, if it is well-shaped. -/
def shapeOf (es : List (Text × Value)) : Option Shape := do
  let settings ← fieldOr settingsOf {} (valueAt "detector" es)
  match valueAt "classes" es, valueAt "mappings" es with
  | some _, some _ => none
  | some v, none | none, some v => return { settings, classes := some (← declaredEntries v) }
  | none, none => return { settings, classes := none }

/-- The configuration a mapping document gives, with the namespace conflicts met on the way. -/
def load [DocumentParser] (document : Text) : List NamespaceConflict × Except Error Config :=
  match (Document.parse document).bind shapeOf with
  | none => ([], .error .malformed)
  | some { classes := none, .. } => ([], .error .missingClasses)
  | some { settings, classes := some declared } =>
    let (conflicts, result) := Table.ofRaw declared
    (conflicts, result.map fun table => { table, settings })

end Polyfill.Mapping
