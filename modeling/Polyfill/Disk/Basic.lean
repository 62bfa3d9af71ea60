import Polyfill.Disk.Path

/-! # The disk

A disk is a tree of files and directories, kept as a list of places with what stands there. The top
directory is always there; relative paths begin in the *home* directory. `Disk.node?` is the view of a
disk; a lemma for each change says what stands where after it. -/

namespace Polyfill

/-- The names that lead from the top directory to a place. -/
abbrev Location := List Text

/-- What stands at a place. -/
inductive Node where
  | file (content : Text)
  | directory
  deriving DecidableEq

/-- Why something cannot be done with a path. -/
inductive FileError where
  | notFound
  | alreadyExists
  | notDirectory
  | isDirectory
  | directoryNotEmpty
  | invalidArgument
  | busy
  | nameTooLong
  /-- The path holds a zero byte. -/
  | zeroByte
  /-- The content of the file is no text. -/
  | notText
  /-- A failure of another kind. -/
  | other (message : String)
  deriving DecidableEq

/-- The wording of an error. -/
def FileError.message : FileError → String
  | notFound => "No such file or directory (os error 2)"
  | alreadyExists => "File exists (os error 17)"
  | notDirectory => "Not a directory (os error 20)"
  | isDirectory => "Is a directory (os error 21)"
  | directoryNotEmpty => "Directory not empty (os error 39)"
  | invalidArgument => "Invalid argument (os error 22)"
  | busy => "Device or resource busy (os error 16)"
  | nameTooLong => "File name too long (os error 36)"
  | zeroByte => "file name contained an unexpected NUL byte"
  | notText => "stream did not contain valid UTF-8"
  | other message => message

/-- A tree of files and directories. -/
structure Disk where
  /-- The places below the top directory with what stands there. -/
  entries : List (Location × Node) := []
  /-- The directory in which relative paths begin. -/
  home : Location := []
  deriving DecidableEq

namespace Disk

/-- **What stands at a place.** -/
def node? (d : Disk) (l : Location) : Option Node :=
  if l = [] then some .directory else d.entries.lookup l

/-- The disk with something put at a place. -/
def put (d : Disk) (l : Location) (n : Node) : Disk :=
  { d with entries := (l, n) :: d.entries.filter (·.1 != l) }

/-- The disk without what stands at a place. -/
def erase (d : Disk) (l : Location) : Disk := { d with entries := d.entries.filter (·.1 != l) }

/-- The place `k` lies below the place `l`. -/
def isBelow (l k : Location) : Bool := l.isPrefixOf k && l != k

/-- The disk without what stands below a place. -/
def eraseBelow (d : Disk) (l : Location) : Disk :=
  { d with entries := d.entries.filter (!isBelow l ·.1) }

/-- Nothing stands below the place. -/
def isEmptyBelow (d : Disk) (l : Location) : Bool := d.entries.all (!isBelow l ·.1)

/-! ### What stands where after a change -/

/-- The entries at places that satisfy a condition. -/
theorem lookup_filter {p : Location → Bool} (es : List (Location × Node)) (k : Location) :
    (es.filter fun e => p e.1).lookup k = if p k then es.lookup k else none := by
  induction es with
  | nil => simp
  | cons e es ih =>
    obtain ⟨l, n⟩ := e
    by_cases hk : k = l
    · subst hk
      by_cases hp : p k <;> simp [hp, ih]
    · have hb : (k == l) = false := by simpa using hk
      by_cases hp : p l <;> simp [hp, ih, List.lookup_cons, hb]

@[simp] theorem node?_nil (d : Disk) : d.node? [] = some .directory := rfl

theorem node?_put (d : Disk) {l : Location} (n : Node) (k : Location) (hl : l ≠ []) :
    (d.put l n).node? k = if k = l then some n else d.node? k := by
  by_cases hk : k = []
  · subst hk
    simp [node?, Ne.symm hl]
  · by_cases hkl : k = l
    · subst hkl
      simp [node?, put, hk]
    · have hb : (k == l) = false := by simpa using hkl
      simp only [node?, put, hk, if_false, List.lookup_cons, hb, hkl]
      rw [lookup_filter (p := fun m => m != l)]
      simp [hkl]

theorem node?_erase (d : Disk) {l : Location} (k : Location) (hl : l ≠ []) :
    (d.erase l).node? k = if k = l then none else d.node? k := by
  by_cases hk : k = []
  · subst hk
    simp [node?, Ne.symm hl]
  · simp only [node?, erase, hk, if_false]
    rw [lookup_filter (p := fun m => m != l)]
    by_cases hkl : k = l <;> simp [hkl]

theorem node?_eraseBelow (d : Disk) (l k : Location) :
    (d.eraseBelow l).node? k = if isBelow l k then none else d.node? k := by
  by_cases hk : k = []
  · subst hk
    cases l <;> simp [node?, isBelow, List.isPrefixOf]
  · simp only [node?, eraseBelow, hk, if_false]
    rw [lookup_filter (p := fun m => !isBelow l m)]
    by_cases hb : isBelow l k <;> simp [hb]

end Disk

end Polyfill
