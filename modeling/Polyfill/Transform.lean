import Polyfill.Header
import Polyfill.Log
import Polyfill.Mapping.Load
import Polyfill.Prune.Basic
import Polyfill.Rename
import Polyfill.Source.SourceParser

/-! # The transformation of a file

A file is parsed, pruned, renamed, printed and given its header. If any of this fails, the result is the
source itself, so a file that cannot be transformed never stops the others. A panic of the parser or of the walk
through the tree is caught and counts as a failure.

* `withProgram`: what a walk makes of the tree of a source.
* `Config.transform`: the outcome for the file of an entry.
* `Config.survey`: what the transformation would remove, without changing anything. -/

namespace Polyfill

open Source Notice Mapping

/-- How far a file has come. -/
inductive Stage where
  | loaded
  | parsed
  | pruned
  | renamed
  | printed
  | headered
  | written
  /-- The file could not be transformed. -/
  | failed
  deriving DecidableEq

/-- The name of a stage in log records. -/
def Stage.name : Stage → String
  | loaded => "Loaded"
  | parsed => "Parsed"
  | pruned => "Pruned"
  | renamed => "Rewritten"
  | printed => "Printed"
  | headered => "Headered"
  | written => "Written"
  | failed => "Failed"

/-- Why a file cannot be transformed. -/
inductive Failure where
  /-- The source has errors, that many if they were counted. -/
  | unparsable (errors : Option Nat)
  /-- The parser or the walk through the tree panicked. -/
  | panicked
  /-- The edits do not fit together. -/
  | edits (fault : Edit.Fault)
  deriving DecidableEq

/-- A number of errors, or a question mark for one that is not known. -/
def countName : Option Nat → String
  | some n => toString n
  | none => "?"

/-- The wording of a failure. -/
def Failure.message : Failure → String
  | unparsable errors => s!"source does not parse ({countName errors} syntax error(s))"
  | panicked => "transform panicked"
  | edits (.overlap offset) => s!"edits overlap at byte {offset}"
  | edits .splitCharacter => "edits cut a character"

/-- The last stage that was reached when the failure came. -/
def Failure.stage : Failure → Stage
  | unparsable _ | panicked => .loaded
  | edits _ => .renamed

/-- The records that are made when a source does not get through its parser and the walk. -/
def Failure.records : Failure → List Record
  | panicked => [⟨.error, "parser panicked; leaving file untransformed"⟩]
  | unparsable _ | edits _ => []

/-- The outcome for one file. -/
structure Outcome where
  /-- The text to be written. -/
  text : Text
  stage : Stage
  /-- The number of rename notices removed. -/
  removed : Nat
  /-- A declaration got a new name. -/
  renamed : Bool
  failure : Option Failure
  log : List Record
  deriving DecidableEq

/-- The file could not be transformed. -/
def Outcome.isFallback (o : Outcome) : Bool := o.stage == .failed

/-- The outcome for a source that cannot be transformed: the source itself. The records made before the
failure come first. -/
def Outcome.fallback (e : Entry) (source : Text) (earlier : List Record) (f : Failure) : Outcome where
  text := source
  stage := .failed
  removed := 0
  renamed := false
  failure := some f
  log := earlier ++ [⟨.warn, s!"{e.identity.display}: {f.message} after stage {f.stage.name}; " ++
    "emitting the source untransformed"⟩]

/-- The record of a removed notice. -/
def noticeRecord (source : Text) (span : Span) : Record :=
  ⟨.debug, s!"pruning `{(Prune.textAt source span).display}`"⟩

/-- The record of a dropped import. -/
def importRecord (source : Text) (span : Span) : Record :=
  ⟨.debug, s!"dropping unused import `{(Prune.textAt source span).display}`"⟩

/-- The record of a rename. -/
def Rename.record (r : Rename) : Record :=
  let kind := if r.isNamespace then "namespace" else "class"
  ⟨.debug, s!"{kind} {r.ident.text.display} -> {r.target.display}"⟩

/-- The records of what is changed in a file. -/
def changeRecords (source : Text) (pruned : Prune.Pruned) (renames : List Rename) : List Record :=
  pruned.notices.map (noticeRecord source) ++ pruned.imports.map (importRecord source) ++
    renames.map Rename.record

/-- The record of a transformation that succeeds. -/
def successRecord (e : Entry) (pruned : Prune.Pruned) (renames : List Rename) : Record :=
  ⟨.debug, s!"{e.identity.display}: removed {pruned.removed} notice(s), renamed: {!renames.isEmpty}"⟩

/-- The outcome for a file that is pruned and gets the given new names. -/
def Outcome.ofPruned (e : Entry) (source : Text) (pruned : Prune.Pruned) (rs : List Rename) : Outcome :=
  match applyEdits source (pruned.edits ++ rs.map Rename.edit) with
  | .error fault => .fallback e source (changeRecords source pruned rs) (.edits fault)
  | .ok printed => {
      text := Header.apply printed e.identity
      stage := .headered
      removed := pruned.removed
      renamed := !rs.isEmpty
      failure := none
      log := changeRecords source pruned rs ++ [successRecord e pruned rs] }

/-- What `visit` makes of the tree of a source. Where it panics it gives nothing. -/
def withProgram [SourceParser] {α : Type} (source : Text) (visit : Program → Option α) : Except Failure α :=
  match SourceParser.parse source with
  | .errors n => .error (.unparsable n)
  | .panicked => .error .panicked
  | .tree p =>
    match visit p with
    | none => .error .panicked
    | some a => .ok a

namespace Mapping.Config

/-- The judge for the file `p` of the entry `e`. -/
def judge (c : Config) (e : Entry) (p : Program) : Judge :=
  .ofSettings c.settings (Prune.facadeAliases c.settings.facade p)
    (if c.settings.configAware then tokensOf e else [])

/-- The pruning of the file `p` of the entry `e`, which panics where a slice of the source fails. -/
def prune? (c : Config) (e : Entry) (source : Text) (p : Program) : Option Prune.Pruned :=
  Prune.prune? c.settings.facade (c.judge e p) source p

/-- The pruning of the file `p` of the entry `e` where no slice fails. -/
def prune (c : Config) (e : Entry) (source : Text) (p : Program) : Prune.Pruned :=
  Prune.prune c.settings.facade (c.judge e p) source p

/-- The edits of the file `p` of the entry `e` where no slice fails. -/
def edits (c : Config) (e : Entry) (source : Text) (p : Program) : List Edit :=
  (c.prune e source p).edits ++ (renames c.table e p).map Rename.edit

variable [SourceParser]

/-- **The outcome for the file of an entry.** -/
def transform (c : Config) (e : Entry) (source : Text) : Outcome :=
  let visit (p : Program) := (c.prune? e source p).map fun pruned => (pruned, renames c.table e p)
  match withProgram source visit with
  | .error f => .fallback e source f.records f
  | .ok (pruned, rs) => .ofPruned e source pruned rs

/-- **What the transformation would look at.** -/
def survey (c : Config) (e : Entry) (source : Text) : Except Failure (List Prune.Site) :=
  withProgram source fun p => Prune.survey? (c.judge e p) source p

/-- The configuration in which only the fixed phrases count. -/
def phrasesOnly (c : Config) : Config :=
  { c with settings := { c.settings with configAware := false } }

end Mapping.Config

end Polyfill
