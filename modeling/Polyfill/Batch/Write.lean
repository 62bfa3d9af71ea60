import Polyfill.Host

/-! # Writing a file whole

A file is written next to its place first and then moved there in one go. So a reader never meets half a
file, and a failure leaves what was there before. -/

namespace Polyfill.Batch

variable {m : Type → Type} [Monad m]

/-- The directory in which the file at a path is written. -/
def directoryOf (path : Path) : Path := path.parent?.getD Path.here

/-- Remove the temporary file after a failure, and report the failure. -/
def giveUp (h : Host m) (temporary : Path) (e : FileError) : m (Except FileError Unit) := do
  let _ ← h.perform (.discard temporary)
  return .error e

/-- Fill the temporary file and move it to its place. -/
def fillAndMove (h : Host m) (temporary path : Path) (text : Text) : m (Except FileError Unit) := do
  match ← h.perform (.save temporary text) with
  | .error e => giveUp h temporary e
  | .ok () =>
    match ← h.perform (.rename temporary path) with
    | .error e => giveUp h temporary e
    | .ok () => return .ok ()

/-- **Write a file, whole or not at all.** Missing directories above it are made. -/
def writeWhole (h : Host m) (path : Path) (text : Text) : m (Except FileError Unit) := do
  match ← h.perform (.createDirectories (directoryOf path)) with
  | .error e => return .error e
  | .ok () =>
    let temporary := (directoryOf path).join (← h.freshName (directoryOf path))
    match ← h.perform (.createFile temporary) with
    | .error e => return .error e
    | .ok () => fillAndMove h temporary path text

end Polyfill.Batch
