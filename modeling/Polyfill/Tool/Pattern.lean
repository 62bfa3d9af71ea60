import Polyfill.Disk.Lookup

/-! # Patterns

A pattern stands for whole texts: `*` for any bytes, `?` for one of them, and brackets for one of a set. A
quoted byte stands for itself. Patterns of paths are compared with the disk name by name.

* `Pattern.accepts`: the text is one that the pattern stands for.
* `matchingPaths`: the paths on the disk that a pattern stands for. -/

namespace Polyfill.Tool

/-- What one place of a pattern admits. -/
inductive Slot where
  /-- Any bytes, also none. -/
  | many
  | any
  | byte (b : UInt8)
  /-- One of the bytes in the ranges, or one that is in none of them. -/
  | oneOf (isNegated : Bool) (ranges : List (UInt8 × UInt8))
  deriving DecidableEq

/-- A pattern for texts. -/
abbrev Pattern := List Slot

/-- A text of which every byte tells whether it is quoted. -/
abbrev Marked := List (UInt8 × Bool)

namespace Marked

/-- The bytes alone. -/
def text (m : Marked) : Text := m.map (·.1)

/-- The marked text has a byte that can stand for others. -/
def isOpen (m : Marked) : Bool :=
  m.any fun (b, isQuoted) => !isQuoted && (b == 0x2A || b == 0x3F || b == 0x5B)

/-- The texts between slashes. -/
def names : Marked → List Marked
  | [] => [[]]
  | (b, isQuoted) :: m =>
    match names m with
    | [] => [[(b, isQuoted)]]
    | name :: more => if b == Path.slash then [] :: name :: more else ((b, isQuoted) :: name) :: more

end Marked

/-- The slot admits the byte. -/
def Slot.admits (s : Slot) (b : UInt8) : Bool :=
  match s with
  | many | any => true
  | byte c => b == c
  | oneOf isNegated ranges => ranges.any (fun (low, high) => low ≤ b && b ≤ high) != isNegated

namespace Pattern

/-- The text and what is left of it when bytes are taken from its front. -/
def suffixes : Text → List Text
  | [] => [[]]
  | b :: t => (b :: t) :: suffixes t

/-- **The text is one that the pattern stands for.** -/
def accepts : Pattern → Text → Bool
  | [], t => t.isEmpty
  | .many :: p, t => (suffixes t).any (accepts p)
  | _ :: _, [] => false
  | s :: p, b :: t => s.admits b && accepts p t

/-! ### Reading -/

/-- The ranges between brackets, and what follows the closing one. -/
def ranges? : Marked → Option (List (UInt8 × UInt8) × Marked)
  | [] => none
  | (0x5D, false) :: m => some ([], m)
  | (low, _) :: (0x2D, false) :: (high, isQuoted) :: m =>
    if high == 0x5D && !isQuoted then some ([(low, low), (0x2D, 0x2D)], m)
    else (ranges? m).map fun (more, after) => ((low, high) :: more, after)
  | (b, _) :: m => (ranges? m).map fun (more, after) => ((b, b) :: more, after)

/-- The set between brackets, of which the first is read, and what follows it. A closing bracket that comes
first belongs to the set. -/
def set? (m : Marked) : Option (Slot × Marked) :=
  let isNegated := m.head? == some (0x21, false) || m.head? == some (0x5E, false)
  let body := if isNegated then m.drop 1 else m
  let ranges : Option (List (UInt8 × UInt8) × Marked) :=
    match body with
    | (0x5D, _) :: more => (ranges? more).map fun (rs, after) => ((0x5D, 0x5D) :: rs, after)
    | _ => ranges? body
  ranges.map fun (rs, after) => (.oneOf isNegated rs, after)

/-- The pattern a marked text means, read in at most `fuel` steps. -/
def read : (fuel : Nat) → Marked → Pattern
  | 0, _ => []
  | _, [] => []
  | fuel + 1, (b, isQuoted) :: m =>
    if isQuoted then .byte b :: read fuel m
    else if b == 0x2A then .many :: read fuel m
    else if b == 0x3F then .any :: read fuel m
    else if b == 0x5B then
      match set? m with
      | some (slot, after) => slot :: read fuel after
      | none => .byte b :: read fuel m
    else .byte b :: read fuel m

/-- The pattern a marked text means. -/
def ofMarked (m : Marked) : Pattern := read m.length m

end Pattern

/-! ### Values -/

/-- The shortest or longest front of a text that the pattern stands for is taken off, or the same at its
end. -/
def trimmed (p : Pattern) (atFront isLongest : Bool) (t : Text) : Text :=
  let cuts := (List.range (t.length + 1)).filter fun n =>
    p.accepts (if atFront then t.take n else t.drop (t.length - n))
  match if isLongest then cuts.getLast? else cuts.head? with
  | none => t
  | some n => if atFront then t.drop n else t.take (t.length - n)

/-! ### Paths -/

/-- The names in a directory, in order. -/
def Disk.names (d : Disk) (l : Location) : List Text :=
  let below := d.entries.filter fun e => e.1 != [] && e.1.dropLast == l
  (below.filterMap (·.1.getLast?)).mergeSort fun a b => decide (a ≤ b)

/-- The names in the directory at a path, none if there is no directory. -/
def namesAt (d : Disk) (p : Path) : List Text :=
  if d.isDirectory p then ((d.locate p).toOption.map fun t => Disk.names d t.location).getD [] else []

/-- The path continued by the names that follow it, where `place` is where a path leads. -/
def pathsBelow (d : Disk) (place : Path → Path) : (start : Path) → List Marked → List Path
  | start, [] => if d.has (place start) then [start] else []
  | start, name :: more =>
    let enter (n : Text) : List Path :=
      pathsBelow d place (start ++ n ++ (if more.isEmpty then [] else [Path.slash])) more
    if name.isOpen then
      let isHidden (n : Text) : Bool := n.head? == some 0x2E
      let listed := [Path.here, Path.up] ++ namesAt d (place (if start.isEmpty then Path.here else start))
      let wanted := listed.filter fun n =>
        (Pattern.ofMarked name).accepts n && (!isHidden n || isHidden name.text)
      wanted.flatMap enter
    else enter name.text

/-- **The paths on the disk that a marked text stands for**, or the text itself if there are none. -/
def matchingPaths (d : Disk) (place : Path → Path) (m : Marked) : List Path :=
  if m.isOpen then
    match pathsBelow d place [] m.names with
    | [] => [m.text]
    | found => found
  else [m.text]

end Polyfill.Tool
