import Polyfill.Disk.Step
import Polyfill.Log
import Polyfill.Tool.Status

/-! # The host of a run

A run asks its host for all that lies outside the library: files, programs, the log. The host is a value
over a monad, so the same run can work on the files of a machine or on a `Disk`. -/

namespace Polyfill

/-- What a run needs from outside. -/
structure Host (m : Type → Type) where
  /-- Something stands at the path. -/
  has : Path → m Bool
  /-- A file stands at the path. -/
  isFile : Path → m Bool
  /-- The content of the file at the path. -/
  read : Path → m (Except FileError Text)
  /-- Change the disk. -/
  perform : Step → m (Except FileError Unit)
  /-- A name that nothing in the directory has. -/
  freshName : Path → m Text
  /-- Run a program with the given arguments to its end. -/
  runTool : Text → List Text → m (Except FileError Tool.Status)
  /-- Add a record to the log. -/
  emit : Record → m Unit
  /-- Print to the standard output. -/
  print : Text → m Unit

namespace Host

variable {m : Type → Type} [Monad m]

/-- Add records to the log. -/
def emitAll (h : Host m) (rs : List Record) : m Unit := rs.forM h.emit

/-- The text in the file at the path. -/
def readText (h : Host m) (p : Path) : m (Except FileError Text) := do
  match ← h.read p with
  | .error e => return .error e
  | .ok content => return if Text.isValid content then .ok content else .error .notText

end Host

end Polyfill
