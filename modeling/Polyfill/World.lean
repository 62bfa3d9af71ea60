import Polyfill.Host
import Polyfill.Tool.Run

/-! # The world as a host

A world holds a disk and all that a run leaves behind. Any read and any step can be made to fail: `faults`
says which of them do, counted from the start of the run. A step that is made to fail leaves the disk as
it is. Only discarding a file cannot be made to fail.

* `World.host`: the host that works on the world. -/

namespace Polyfill

/-- A disk with the traces of a run. -/
structure World where
  disk : Disk
  /-- The failure of the read or step with the given number. -/
  faults : Nat → Option FileError := fun _ => none
  /-- The number of reads and steps so far. -/
  clock : Nat := 0
  /-- The disk after each step so far, the latest first. -/
  history : List Disk := []
  /-- The records so far. -/
  log : List Record := []
  /-- What was printed so far. -/
  output : Text := []

namespace World

/-- The content of the file at a path, unless the read is to fail. -/
def read (p : Path) : StateM World (Except FileError Text) := fun w =>
  let result :=
    match w.faults w.clock with
    | some e => .error e
    | none => w.disk.read p
  (result, { w with clock := w.clock + 1 })

/-- The result of a step on a disk, where `fault` is the failure it is to meet. -/
def attempt (fault : Option FileError) (d : Disk) (s : Step) : Except FileError Unit × Disk :=
  match fault, s with
  | none, _ | some _, .discard _ => s.run d
  | some e, _ => (.error e, d)

/-- Change the disk, unless the step is to fail. -/
def perform (s : Step) : StateM World (Except FileError Unit) := fun w =>
  let (result, disk) := attempt (w.faults w.clock) w.disk s
  (result, { w with disk, clock := w.clock + 1, history := disk :: w.history })

/-- The name of a temporary file with the given number. -/
def temporaryName (n : Nat) : Text := Text.ofString s!".tmp{n}"

/-- A name that nothing in the directory has. There is one among the first names, since there are more
of them than places on the disk. -/
def freshName (directory : Path) : StateM World Text := fun w =>
  let isFree (n : Nat) : Bool := !w.disk.has (directory.join (temporaryName n))
  let n := ((List.range (w.disk.entries.length + 1)).find? isFree).getD 0
  (temporaryName n, w)

/-- Run a program on the disk. -/
def runTool (program : Text) (arguments : List Text) :
    StateM World (Except FileError Tool.Status) := fun w =>
  match Tool.run { disk := w.disk } program arguments with
  | .error e => (.error e, w)
  | .ok (status, scene) =>
    (.ok status, { w with disk := scene.disk, output := w.output ++ scene.output })

/-- **The host that works on a world.** -/
def host : Host (StateM World) where
  has p := fun w => (w.disk.has p, w)
  isFile p := fun w => (w.disk.isFile p, w)
  read
  perform
  freshName
  runTool
  emit r := fun w => ((), { w with log := w.log ++ [r] })
  print t := fun w => ((), { w with output := w.output ++ t })

end World

end Polyfill
