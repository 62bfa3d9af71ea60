import Polyfill.Command.Run
import Polyfill.Document.Parse
import Polyfill.Source.Parse

/-! # The program

The command line on the files of the machine. Cleanup tools are not started from here. -/

namespace Polyfill.Main

open Command

/-- The number of the failure that an error stands for. -/
def codeOf : IO.Error → Option UInt32
  | .noFileOrDirectory _ code _ => some code
  | .alreadyExists _ code _ => some code
  | .inappropriateType _ code _ => some code
  | .invalidArgument _ code _ => some code
  | .resourceBusy code _ => some code
  | .unsatisfiedConstraints code _ => some code
  | _ => none

/-- The number of a failure without its sign, which some functions of the machine give with it. -/
def unsigned (code : UInt32) : UInt32 := if code < 0x80000000 then code else 0 - code

/-- The error of the library that an error of the machine stands for. -/
def fileError (e : IO.Error) : FileError :=
  match (codeOf e).map unsigned with
  | some 2 => .notFound
  | some 16 => .busy
  | some 17 => .alreadyExists
  | some 20 => .notDirectory
  | some 21 => .isDirectory
  | some 22 => .invalidArgument
  | some 36 => .nameTooLong
  | some 39 => .directoryNotEmpty
  | _ => .other (toString e)

/-- The result of an action that may fail. -/
def attempt {α : Type} (action : IO α) : IO (Except FileError α) := do
  match ← action.toBaseIO with
  | .ok a => return .ok a
  | .error e => return .error (fileError e)

/-- The action succeeds. -/
def succeeds {α : Type} (action : IO α) : IO Bool := return (← action.toBaseIO).isOk

/-- The bytes of a text. -/
def bytes (t : Text) : ByteArray := ⟨t.toArray⟩

/-- Carry out a step on the files of the machine. -/
def perform : Step → IO Unit
  | .removeTree p => IO.FS.removeDirAll p.display
  | .createDirectories p => if p.isEmpty then pure () else IO.FS.createDirAll p.display
  | .createFile p => do
    let _ ← IO.FS.Handle.mk p.display .writeNew
  | .save p content => IO.FS.writeBinFile p.display (bytes content)
  | .rename source target => IO.FS.rename source.display target.display
  | .discard p => IO.FS.removeFile p.display

/-- Show a record on the standard error. -/
def showRecord (filter : LogFilter) (r : Record) : IO Unit := do
  if r.passes filter then IO.eprintln s!"{r.level.name} {r.shown}"

/-- The host that works on the files of the machine. -/
def host (filter : LogFilter) : Host IO where
  has p := succeeds (IO.FS.realPath p.display)
  isFile p := succeeds (IO.FS.readBinFile p.display)
  read p := attempt do return (← IO.FS.readBinFile p.display).toList
  perform s := attempt (perform s)
  freshName _ := do
    let n ← IO.rand 100000000 999999999
    return Text.ofString s!".tmp{n}"
  runTool _ _ := return .error (.other "programs cannot be started")
  emit r := showRecord filter r
  print t := do
    let out ← IO.getStdout
    out.write (bytes t)

/-- The lines that explain the command line. -/
def usage : String :=
  "Usage: nsforward [-v]... generate --config FILE --source DIR --output DIR [--phrases-only] " ++
    "[--keep-output] [--report FILE] [--cleanup COMMAND...]\n" ++
    "       nsforward [-v]... check --config FILE [--source DIR]"

end Polyfill.Main

open Polyfill in
/-- The program. -/
def main (arguments : List String) : IO UInt32 := do
  let texts := arguments.map Text.ofString
  let filter := ((Command.Invocation.ofArguments? texts).map (·.filter)).getD none
  let ending ← Command.execute (Main.host filter) texts
  match ending with
  | .success => pure ()
  | .failure e => IO.eprintln s!"Error: {e.explanation}"
  | .usage => IO.eprintln Main.usage
  return ending.code.toUInt32
