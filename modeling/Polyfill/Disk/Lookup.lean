import Polyfill.Disk.Basic

/-! # Looking up paths

A path is followed name by name, from the top directory if it is absolute and from the home directory
otherwise. Every name but the last has to lead to a directory; the last may lead to anything or nothing,
which is for the operation to judge.

* `Disk.locate`: where a path leads.
* `Disk.find`: what stands there.
* `Standpoint.place`: what a path means that begins in another directory. -/

namespace Polyfill

/-- The place a name leads to from a directory. The top directory is its own parent. -/
def Location.enter (l : Location) (name : Text) : Location :=
  if name = Path.here then l else if name = Path.up then l.dropLast else l ++ [name]

/-- The number of bytes a name may have. -/
def nameLimit : Nat := 255

/-- The number of bytes a path may have. -/
def pathLimit : Nat := 4095

/-- Where a path leads. -/
structure Target where
  /-- The directory of the last name. -/
  directory : Location
  /-- The last name. -/
  name : Text
  /-- A slash follows the last name. -/
  isSlashed : Bool
  deriving DecidableEq

/-- The place meant. -/
def Target.location (t : Target) : Location := t.directory.enter t.name

/-- The last name is one that an entry of a directory can have. -/
def Target.isPlain (t : Target) : Bool := t.name != Path.here && t.name != Path.up

namespace Disk

/-- The directory that names lead to from another one. -/
def walk (d : Disk) : Location → List Text → Except FileError Location
  | l, [] => .ok l
  | l, name :: rest =>
    if nameLimit < name.length then .error .nameTooLong
    else
      match d.node? (l.enter name) with
      | none => .error .notFound
      | some (.file _) => .error .notDirectory
      | some .directory => d.walk (l.enter name) rest

/-- The directory in which a path begins. -/
def origin (d : Disk) (p : Path) : Location := if p.isAbsolute then [] else d.home

/-- The target of a path, unless its last name is to be looked up in a directory that is gone. -/
def enterable (d : Disk) (t : Target) : Except FileError Target :=
  if nameLimit < t.name.length then .error .nameTooLong
  else if t.isPlain && d.node? t.directory != some .directory then .error .notFound
  else .ok t

/-- **Where a path leads.** -/
def locate (d : Disk) (p : Path) : Except FileError Target :=
  if p.contains 0 then .error .zeroByte
  else if pathLimit < p.length then .error .nameTooLong
  else
    match p.names.getLast? with
    | none => if p.isAbsolute then .ok ⟨[], Path.here, true⟩ else .error .notFound
    | some name =>
      match d.walk (d.origin p) p.names.dropLast with
      | .error e => .error e
      | .ok directory => d.enterable ⟨directory, name, p.isSlashed⟩

/-- **What stands at a path.** -/
def find (d : Disk) (p : Path) : Except FileError Node :=
  match d.locate p with
  | .error e => .error e
  | .ok t =>
    match d.node? t.location with
    | none => .error .notFound
    | some .directory => .ok .directory
    | some (.file content) => if t.isSlashed then .error .notDirectory else .ok (.file content)

/-- Something stands at the path. -/
def has (d : Disk) (p : Path) : Bool := (d.find p).isOk

/-- A file stands at the path. -/
def isFile (d : Disk) (p : Path) : Bool :=
  match d.find p with
  | .ok (.file _) => true
  | _ => false

/-- A directory stands at the path. -/
def isDirectory (d : Disk) (p : Path) : Bool :=
  match d.find p with
  | .ok .directory => true
  | _ => false

/-- The content of the file at a path. -/
def read (d : Disk) (p : Path) : Except FileError Text :=
  match d.find p with
  | .error e => .error e
  | .ok .directory => .error .isDirectory
  | .ok (.file content) => .ok content

end Disk

/-- A disk seen from one of its directories. -/
structure Standpoint where
  disk : Disk
  /-- The directory in which relative paths begin. -/
  directory : Path := []

/-- The path from the home directory that leads where a path leads from here. -/
def Standpoint.place (v : Standpoint) (p : Path) : Path :=
  if p.isEmpty then p else Path.join v.directory p

end Polyfill
