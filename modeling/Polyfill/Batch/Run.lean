import Polyfill.Batch.Report
import Polyfill.Batch.Write
import Polyfill.Transform

/-! # Running over the mapping table

A run makes the output directory ready, writes the file of each entry in declared order and then lets a
cleanup tool work on the output. Trouble with one entry or with the cleanup is recorded and does not
stop the run; only an output directory that cannot be made ready does.

* `Batch.process`: the work on one entry.
* `Batch.run`: the whole run. -/

namespace Polyfill.Batch

open Mapping

/-- A program to run over the output directory, which becomes its last argument. -/
structure Cleanup where
  program : Text
  arguments : List Text
  deriving DecidableEq

/-- The cleanup that a command line asks for, none if it is empty. -/
def Cleanup.ofArguments : List Text → Option Cleanup
  | [] => none
  | program :: arguments => some { program, arguments }

/-- What a run is asked to do. -/
structure Options where
  /-- The directory of the source files. -/
  sourceRoot : Path
  /-- The directory of the generated files. -/
  outputRoot : Path
  /-- Remove the output directory first. -/
  clearOutput : Bool
  cleanup : Option Cleanup
  deriving DecidableEq

/-- Why an entry is left out. -/
inductive EntryError where
  /-- There is no file at the path. -/
  | missing (identity : Text) (path : Path)
  | unreadable (path : Path) (cause : FileError)
  | unwritable (path : Path) (cause : FileError)
  deriving DecidableEq

/-- The wording of an error. -/
def EntryError.message : EntryError → String
  | missing identity path => s!"source file for `{identity.display}` not found at {path.display}"
  | unreadable path cause => s!"cannot read {path.display}: {cause.message}"
  | unwritable path cause => s!"cannot write {path.display}: {cause.message}"

/-- Why a cleanup fails. -/
inductive CleanupError where
  | notStarted (program : Text) (cause : FileError)
  | unsuccessful (program : Text) (status : Tool.Status)
  deriving DecidableEq

/-- The wording of an error. -/
def CleanupError.message : CleanupError → String
  | notStarted program cause => s!"cannot start cleanup tool `{program.display}`: {cause.message}"
  | unsuccessful program status =>
    s!"cleanup tool `{program.display}` exited with {status.message}"

/-- Why a run stops. -/
inductive RunError where
  /-- The output directory cannot be made ready. -/
  | outputRoot (path : Path) (cause : FileError)
  deriving DecidableEq

/-- The wording of an error. -/
def RunError.message : RunError → String
  | outputRoot path cause => s!"cannot prepare output directory {path.display}: {cause.message}"

/-! ### Warnings about the table -/

/-- The warning for an entry that writes the same file as an earlier one. -/
def sharedTarget (earlier later : Entry) : Record :=
  ⟨.warn, s!"{earlier.identity.display} and {later.identity.display} both write " ++
    s!"{later.targetPath.display}; the later entry wins"⟩

/-- The warnings for the entries behind those already `seen`, the latest of which comes first. -/
def targetWarnings (seen : List Entry) : List Entry → List Record
  | [] => []
  | e :: rest =>
    let earlier := seen.find? fun s => Path.parts s.targetPath == Path.parts e.targetPath
    (earlier.map (sharedTarget · e)).toList ++ targetWarnings (e :: seen) rest

/-! ### Entries -/

/-- A file that was written. -/
structure Written where
  path : Path
  isFallback : Bool
  removed : Nat
  deriving DecidableEq

/-- The path of the source file of an entry. -/
def Options.sourceOf (o : Options) (e : Entry) : Path := o.sourceRoot.join e.sourcePath

/-- The path of the generated file of an entry. -/
def Options.targetOf (o : Options) (e : Entry) : Path := o.outputRoot.join e.targetPath

/-- The record of a file that was written. -/
def writtenRecord (e : Entry) (target : Path) (outcome : Outcome) : Record :=
  let stage : Stage := if outcome.isFallback then .failed else .written
  ⟨.debug, s!"{e.identity.display} -> {target.display} ({stage.name})"⟩

variable [Source.SourceParser] {m : Type → Type} [Monad m]

/-- Write what became of the source of an entry. -/
def deliver (h : Host m) (o : Options) (e : Entry) (outcome : Outcome) :
    m (Except EntryError Written) := do
  h.emitAll outcome.log
  match ← writeWhole h (o.targetOf e) outcome.text with
  | .error cause => return .error (.unwritable (o.targetOf e) cause)
  | .ok () =>
    h.emit (writtenRecord e (o.targetOf e) outcome)
    return .ok ⟨o.targetOf e, outcome.isFallback, outcome.removed⟩

/-- **The work on one entry.** -/
def process (h : Host m) (c : Config) (o : Options) (e : Entry) : m (Except EntryError Written) := do
  if ← h.isFile (o.sourceOf e) then
    match ← h.readText (o.sourceOf e) with
    | .error cause => return .error (.unreadable (o.sourceOf e) cause)
    | .ok source => deliver h o e (c.transform e source)
  else return .error (.missing e.identity (o.sourceOf e))

/-- The report with what became of one more entry. -/
def Report.add (r : Report) (e : Entry) : Except EntryError Written → Report
  | .ok w => {
      r with
      written := r.written ++ [w.path]
      fallbacks := if w.isFallback then r.fallbacks ++ [w.path] else r.fallbacks
      prunedStatements := r.prunedStatements + w.removed }
  | .error err => { r with skipped := r.skipped ++ [⟨e.identity, err.message⟩] }

/-- Work on an entry and record what became of it. -/
def advance (h : Host m) (c : Config) (o : Options) (r : Report) (e : Entry) : m Report := do
  let result ← process h c o e
  match result with
  | .error err => h.emit ⟨.warn, s!"skipping {e.identity.display}: {err.message}"⟩
  | .ok _ => pure ()
  return r.add e result

/-! ### The whole run -/

/-- Make the output directory ready. -/
def prepare (h : Host m) (o : Options) : m (Except FileError Unit) := do
  let cleared ←
    if o.clearOutput then
      if ← h.has o.outputRoot then h.perform (.removeTree o.outputRoot) else pure (.ok ())
    else pure (.ok ())
  match cleared with
  | .error e => return .error e
  | .ok () => h.perform (.createDirectories o.outputRoot)

/-- Run the cleanup tool over the output directory. -/
def cleanUp (h : Host m) (output : Path) (c : Cleanup) : m (Except CleanupError Unit) := do
  h.emit ⟨.info, s!"running cleanup tool `{c.program.display}`"⟩
  match ← h.runTool c.program (c.arguments ++ [output]) with
  | .error cause => return .error (.notStarted c.program cause)
  | .ok status =>
    return if status.success then .ok () else .error (.unsuccessful c.program status)

/-- Run the cleanup tool and record what became of it. -/
def recordCleanup (h : Host m) (output : Path) (c : Cleanup) : m CleanupResult := do
  match ← cleanUp h output c with
  | .ok () => return .succeeded
  | .error err =>
    h.emit ⟨.warn, s!"{err.message}; keeping generated files as written"⟩
    return .failed err.message

/-- The last record of a run. -/
def Report.summary (r : Report) : Record :=
  ⟨.info, s!"wrote {r.written.length} file(s), skipped {r.skipped.length}, " ++
    s!"{r.fallbacks.length} untransformed, pruned {r.prunedStatements} notice(s)"⟩

/-- **The whole run.** -/
def run (h : Host m) (c : Config) (o : Options) : m (Except RunError Report) := do
  match ← prepare h o with
  | .error cause => return .error (.outputRoot o.outputRoot cause)
  | .ok () =>
    h.emitAll (targetWarnings [] c.table.entries)
    let filed ← c.table.entries.foldlM (advance h c o) {}
    let report : Report := {
      filed with cleanup := ← o.cleanup.mapM (recordCleanup h o.outputRoot) }
    h.emit report.summary
    return .ok report

end Polyfill.Batch
