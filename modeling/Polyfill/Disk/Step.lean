import Polyfill.Disk.Lookup

/-! # Steps

A step changes the disk or fails. A step that fails can still have changed something: directories made on
the way to the one wanted stay, and so does the emptiness of a tree that could be cleared but not
removed.

* `Step.run`: what a step does to a disk. -/

namespace Polyfill

namespace Disk

/-- The disk with a new directory at a path whose parent is there. -/
def makeDirectory (d : Disk) (p : Path) : Except FileError Disk :=
  match d.locate p with
  | .error e => .error e
  | .ok t =>
    match d.node? t.location with
    | some _ => .error .alreadyExists
    | none => .ok (d.put t.location .directory)

/-- Accept a failure to make a directory if the directory is there. -/
def unlessDirectory (d : Disk) (p : Path) (e : FileError) : Except FileError Unit :=
  if d.isDirectory p then .ok () else .error e

/-- Make the first of the directories, and before it those that follow as far as they are missing. -/
def makeDirectories (d : Disk) : List Path → Except FileError Unit × Disk
  | [] => (.ok (), d)
  | p :: ancestors =>
    match d.makeDirectory p with
    | .ok made => (.ok (), made)
    | .error .notFound =>
      match d.makeDirectories ancestors with
      | (.error e, partly) => (.error e, partly)
      | (.ok (), ready) =>
        match ready.makeDirectory p with
        | .ok made => (.ok (), made)
        | .error e => (ready.unlessDirectory p e, ready)
    | .error e => (d.unlessDirectory p e, d)

/-- The disk without the empty directory at a path. -/
def removeDirectory (d : Disk) (p : Path) : Except FileError Disk :=
  match d.locate p with
  | .error e => .error e
  | .ok t =>
    if t.name = Path.here then .error .invalidArgument
    else if t.name = Path.up then .error .directoryNotEmpty
    else
      match d.node? t.location with
      | none => .error .notFound
      | some (.file _) => .error .notDirectory
      | some .directory =>
        if d.isEmptyBelow t.location then .ok (d.erase t.location) else .error .directoryNotEmpty

/-- Remove a directory with all that is in it. A directory that is gone once its content is, is removed
too. -/
def removeTree (d : Disk) (p : Path) : Except FileError Unit × Disk :=
  match d.locate p with
  | .error e => (.error e, d)
  | .ok t =>
    match d.node? t.location with
    | none => (.error .notFound, d)
    | some (.file _) => (.error .notDirectory, d)
    | some .directory =>
      let cleared := d.eraseBelow t.location
      match cleared.removeDirectory p with
      | .ok removed => (.ok (), removed)
      | .error .notFound => (.ok (), cleared)
      | .error e => (.error e, cleared)

/-- The disk with a new empty file at a path. -/
def createFile (d : Disk) (p : Path) : Except FileError Disk :=
  match d.locate p with
  | .error e => .error e
  | .ok t =>
    match d.node? t.location with
    | some _ => .error .alreadyExists
    | none => if t.isSlashed then .error .isDirectory else .ok (d.put t.location (.file []))

/-- The disk with a file at a path, new or with new content. -/
def save (d : Disk) (p : Path) (content : Text) : Except FileError Disk :=
  match d.locate p with
  | .error e => .error e
  | .ok t =>
    match t.isSlashed, d.node? t.location with
    | true, _ => .error .isDirectory
    | false, some .directory => .error .isDirectory
    | false, _ => .ok (d.put t.location (.file content))

/-- The disk without the file at a path. -/
def removeFile (d : Disk) (p : Path) : Except FileError Disk :=
  match d.locate p with
  | .error e => .error e
  | .ok t =>
    match d.node? t.location with
    | none => .error .notFound
    | some .directory => .error .isDirectory
    | some (.file _) => if t.isSlashed then .error .notDirectory else .ok (d.erase t.location)

/-- The disk with the file at one path moved to another, in place of a file there. -/
def renameFile (d : Disk) (source target : Path) : Except FileError Disk :=
  match d.locate source, d.locate target with
  | .error e, _ => .error e
  | _, .error e => .error e
  | .ok s, .ok t =>
    match t.isPlain, d.node? s.location, d.node? t.location with
    | false, _, _ => .error .busy
    | true, none, _ => .error .notFound
    | true, some .directory, _ => .error .isDirectory
    | true, some (.file content), there =>
      if t.isSlashed then .error .notDirectory
      else if there = some .directory then .error .isDirectory
      else .ok ((d.erase s.location).put t.location (.file content))

end Disk

/-- A change of the disk that a run can ask for. -/
inductive Step where
  /-- Remove a directory with all that is in it. -/
  | removeTree (path : Path)
  /-- Make a directory and those above it that are missing. -/
  | createDirectories (path : Path)
  /-- Make a new, empty file. -/
  | createFile (path : Path)
  /-- Give a file its content. -/
  | save (path : Path) (content : Text)
  /-- Move a file to another path, in one go. -/
  | rename (source target : Path)
  /-- Remove a file that is no longer needed. -/
  | discard (path : Path)
  deriving DecidableEq

/-- The result of a change that is made whole or not at all. -/
def Disk.orUnchanged (d : Disk) : Except FileError Disk → Except FileError Unit × Disk
  | .ok changed => (.ok (), changed)
  | .error e => (.error e, d)

/-- **What a step does to a disk.** -/
def Step.run (d : Disk) : Step → Except FileError Unit × Disk
  | removeTree p => d.removeTree p
  | createDirectories p => d.makeDirectories p.withAncestors
  | createFile p => d.orUnchanged (d.createFile p)
  | save p content => d.orUnchanged (d.save p content)
  | rename source target => d.orUnchanged (d.renameFile source target)
  | discard p => d.orUnchanged (d.removeFile p)

end Polyfill
