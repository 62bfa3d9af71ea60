import Polyfill.Disk.Basic

/-! # Comparing disks

The listing of a disk has a line for each file below the home directory, with its content, and one for
each directory there, whose path ends in a slash. What a run changed is read off the listings before and
after it. -/

namespace Polyfill.Disk

/-- The path of a place. -/
def pathOf (l : Location) : Path := [Path.slash].intercalate l

/-- The places below the home directory, as they are seen from there. -/
def homeEntries (d : Disk) : List (Location × Node) :=
  (d.entries.filter fun e => isBelow d.home e.1).map fun e => (e.1.drop d.home.length, e.2)

/-- The listing of a disk: a file with its content, a directory with none. -/
def listing (d : Disk) : List (Path × Option Text) :=
  d.homeEntries.map fun
    | (l, .file content) => (pathOf l, some content)
    | (l, .directory) => (pathOf l ++ [Path.slash], none)

/-- The lines of the second listing that the first has not. -/
def changes (before after : Disk) : List (Path × Option Text) :=
  after.listing.filter fun line => before.listing.lookup line.1 != some line.2

/-- The paths of the first listing that the second has not, in order. -/
def removals (before after : Disk) : List Path :=
  let gone := before.listing.filter fun line => (after.listing.lookup line.1).isNone
  (gone.map (·.1)).mergeSort fun p q => decide (p ≤ q)

/-- The disk with a directory at a place, unless one is there. -/
def ensureDirectory (d : Disk) (l : Location) : Disk :=
  if d.node? l = some .directory then d else d.put l .directory

/-- The disk with something put at a place that is given from the home directory, and directories made
above it. -/
def place (d : Disk) (below : Location) (n : Node) : Disk :=
  let l := d.home ++ below
  let ready := (List.range l.length).foldl (fun d k => d.ensureDirectory (l.take k)) d
  match n with
  | .directory => ready.ensureDirectory l
  | .file content => ready.put l (.file content)

end Polyfill.Disk
