import Polyfill.Batch.Run
import Polyfill.Command.Arguments
import Polyfill.World

/-! # Carrying out a command

`generate` runs over the mapping table and writes a report if it is asked to; `check` reads the table, says
what it renames, and previews what each source file would lose.

* `Command.execute`: a command line on any host.
* `Command.simulate`: a command line on a disk. -/

namespace Polyfill.Command

open Mapping

/-- Why a command fails. -/
inductive Error where
  | unreadableConfig (path : Path) (cause : FileError)
  | config (cause : Mapping.Error)
  | run (cause : Batch.RunError)
  | unwritableReport (path : Path) (cause : FileError)
  deriving DecidableEq

namespace Error

/-- The wording of an error. -/
def message : Error → String
  | unreadableConfig path cause => s!"cannot read mapping file {path.display}: {cause.message}"
  | config cause => cause.message
  | run cause => cause.message
  | unwritableReport path _ => s!"writing report to {path.display}"

/-- The failure of the machine that led to the error. -/
def cause? : Error → Option FileError
  | unreadableConfig _ cause => some cause
  | config _ => none
  | run (.outputRoot _ cause) => some cause
  | unwritableReport _ cause => some cause

/-- The error with its cause. -/
def explanation (e : Error) : String :=
  match e.cause? with
  | none => e.message
  | some cause => e.message ++ "\n\nCaused by:\n    " ++ cause.message

end Error

/-- How a command ends. -/
inductive Ending where
  | success
  | failure (e : Error)
  /-- The command line was not understood. -/
  | usage
  deriving DecidableEq

/-- The exit code of an ending. -/
def Ending.code : Ending → Nat
  | success => 0
  | failure _ => 1
  | usage => 2

/-- The records that are shown if nothing else is asked for. -/
def Invocation.filter (i : Invocation) : LogFilter :=
  match i.verbosity with
  | 0 => some .info
  | 1 => some .debug
  | _ => some .trace

/-- The line that tells the version. -/
def versionLine : Text := Text.ofString "nsforward 0.1.0\n"

/-! ### Records of a check -/

/-- The records that sum up a table. -/
def tableRecords (t : Table) : List Record :=
  ⟨.info, s!"{t.entries.length} class(es), {t.namespaces.pairs.length} namespace rename(s), " ++
    s!"{t.classes.pairs.length} class rename(s)"⟩ ::
    t.namespaces.pairs.map fun p => ⟨.info, s!"namespace {p.1.display} -> {p.2.display}"⟩

/-- The name of a verdict in log records. -/
def verdictName : Notice.Verdict → String
  | .remove => "Remove"
  | .keep => "Keep"

/-- The record of a site. -/
def siteRecord (s : Prune.Site) : Record :=
  ⟨.debug, s!"  {verdictName s.verdict} @{s.offset}: {s.text.display}"⟩

/-- The records of what the file of an entry would lose. -/
def surveyRecords [Source.SourceParser] (c : Config) (e : Entry) (source : Text) : List Record :=
  match c.survey e source with
  | .error f => f.records ++ [⟨.warn, s!"{e.identity.display}: {f.message}"⟩]
  | .ok sites =>
    let removed := (sites.filter (·.verdict = .remove)).length
    ⟨.info, s!"{e.identity.display} -> {e.targetIdentity.display}: {removed} notice(s) removed, " ++
      s!"{sites.length - removed} kept"⟩ :: sites.map siteRecord

/-! ### Commands -/

variable [Document.DocumentParser] [Source.SourceParser] {m : Type → Type} [Monad m]

/-- Load the mapping document at a path. -/
def loadConfig (h : Host m) (path : Path) : m (Except Error Config) := do
  match ← h.readText path with
  | .error cause => return .error (.unreadableConfig path cause)
  | .ok document =>
    let (conflicts, result) := Mapping.load document
    h.emitAll (conflicts.map fun c => ⟨.warn, c.message⟩)
    return result.mapError .config

/-- The options of the run that is asked for. -/
def Generate.options (g : Generate) : Batch.Options where
  sourceRoot := g.source
  outputRoot := g.output
  clearOutput := !g.keepOutput
  cleanup := Batch.Cleanup.ofArguments g.cleanup

/-- Write the report if a path is given. -/
def saveReport (h : Host m) (path : Option Path) (r : Batch.Report) : m Ending := do
  match path with
  | none => return .success
  | some path =>
    match ← h.perform (.save path (Text.ofString r.render)) with
    | .error cause => return .failure (.unwritableReport path cause)
    | .ok () => return .success

/-- Run over the table. -/
def generate (h : Host m) (g : Generate) : m Ending := do
  match ← loadConfig h g.config with
  | .error e => return .failure e
  | .ok loaded =>
    let config := if g.phrasesOnly then loaded.phrasesOnly else loaded
    match ← Batch.run h config g.options with
    | .error e => return .failure (.run e)
    | .ok report => saveReport h g.report report

/-- Preview the file of an entry. -/
def preview (h : Host m) (c : Config) (root : Path) (e : Entry) : m Unit := do
  let path := root.join e.sourcePath
  match ← h.readText path with
  | .error cause =>
    h.emit ⟨.warn, s!"{e.identity.display}: cannot read {path.display}: {cause.message}"⟩
  | .ok source => h.emitAll (surveyRecords c e source)

/-- Check the table, and preview the files if a source directory is given. -/
def check (h : Host m) (arguments : Check) : m Ending := do
  match ← loadConfig h arguments.config with
  | .error e => return .failure e
  | .ok config =>
    h.emitAll (tableRecords config.table)
    match arguments.source with
    | none => return .success
    | some root =>
      config.table.entries.forM (preview h config root)
      return .success

/-- Carry out a request. -/
def Request.run (h : Host m) : Request → m Ending
  | version => do
    h.print versionLine
    return .success
  | generate arguments => Command.generate h arguments
  | check arguments => Command.check h arguments

/-- **Carry out a command line.** -/
def execute (h : Host m) (arguments : List Text) : m Ending :=
  match Invocation.ofArguments? arguments with
  | none => return .usage
  | some i => i.request.run h

/-! ### On a disk -/

/-- What a command line leaves behind. -/
structure Session where
  ending : Ending
  disk : Disk
  output : Text
  /-- The records that are shown. -/
  log : List Record

/-- The records that a command line shows, where `override` comes before what it asks for. -/
def shownRecords (override : Option LogFilter) (arguments : List Text) (log : List Record) :
    List Record :=
  match Invocation.ofArguments? arguments with
  | none => []
  | some i => log.filter (Record.passes (override.getD i.filter))

/-- **Carry out a command line on a disk.** -/
def simulate (override : Option LogFilter) (arguments : List Text) (disk : Disk) : Session :=
  let (ending, world) := (execute World.host arguments).run { disk }
  { ending
    disk := world.disk
    output := world.output
    log := shownRecords override arguments world.log }

end Polyfill.Command
