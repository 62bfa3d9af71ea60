import Polyfill.Text.Basic

/-! # Paths

A path is kept as it is written, since it is reported that way. Two written paths can still mean the same
without looking at the disk: repeated slashes and inner dots do not count. `Path.parts` forgets them.

* `Path.join`: a path below a directory.
* `Path.parts`: what is left of a path when only its parts count.
* `Path.parent?`: the directory a path lies in, as far as its writing tells. -/

namespace Polyfill

/-- A path as it is written. -/
abbrev Path := Text

namespace Path

/-- The byte `/` between two names. -/
def slash : UInt8 := 0x2F

/-- The name of a directory inside itself. -/
def here : Text := Text.ofString "."

/-- The name of the parent of a directory inside it. -/
def up : Text := Text.ofString ".."

/-- The path begins at the root of the machine. -/
def isAbsolute (p : Path) : Bool := p.head? == some slash

/-- The path ends in a slash. -/
def isSlashed (p : Path) : Bool := p.getLast? == some slash

/-- The texts between the slashes. -/
def pieces : Path → List Text
  | [] => [[]]
  | b :: rest =>
    match pieces rest with
    | [] => [[b]]
    | piece :: more => if b = slash then [] :: piece :: more else (b :: piece) :: more

/-- The names in a path, dots among them. -/
def names (p : Path) : List Text := (pieces p).filter (!·.isEmpty)

/-- The path of something below a directory. An absolute path stays as it is. -/
def join (root entry : Path) : Path :=
  if isAbsolute entry then entry
  else if root.isEmpty || isSlashed root then root ++ entry
  else root ++ slash :: entry

/-- A path of which only the parts count. -/
structure Parts where
  absolute : Bool
  names : List Text
  deriving DecidableEq

/-- The parts of a path: a dot counts only at the start of a relative path. -/
def parts (p : Path) : Parts :=
  match isAbsolute p, names p with
  | true, ns => ⟨true, ns.filter (· != here)⟩
  | false, [] => ⟨false, []⟩
  | false, n :: ns => ⟨false, n :: ns.filter (· != here)⟩

/-- A path with the given parts. -/
def ofParts (ps : Parts) : Path :=
  (if ps.absolute then [slash] else []) ++ [slash].intercalate ps.names

/-- The path without its last part, if it has one. -/
def parent? (p : Path) : Option Path :=
  match (parts p).names with
  | [] => none
  | n :: ns => some (ofParts ⟨(parts p).absolute, (n :: ns).dropLast⟩)

/-- The path and the directories above it that are named in it, the nearest first. -/
def withAncestors (p : Path) : List Path :=
  if p.isEmpty then []
  else
    p :: ((List.range ((parts p).names.length - 1)).reverse.map fun k =>
      ofParts ⟨(parts p).absolute, (parts p).names.take (k + 1)⟩)

end Path

end Polyfill
