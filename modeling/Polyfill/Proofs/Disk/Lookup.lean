import Mathlib.Data.List.Basic
import Polyfill.Disk.Lookup

/-! # Where paths lead

There are no links on a disk. So the place a path leads to follows from its names alone, if it leads anywhere at all:
the disk only decides whether the directories on the way are there. A path therefore keeps its meaning for as long as
these directories stay, whatever else changes.

* `Disk.resolve`: the place that the names of a path lead to.
* `Disk.location_of_locate`: a path that leads somewhere leads to that place.
* `Disk.locate_mono`: it does so still where all directories are kept.
* `Disk.read_eq_ok_iff`: when the file at a path can be read. -/

namespace Polyfill.Disk

/-- **The place that the names of a path lead to.** -/
def resolve (d : Disk) (p : Path) : Location := p.names.foldl Location.enter (d.origin p)

/-- All directories of the first disk are directories of the second. -/
def DirectoriesStay (d d' : Disk) : Prop := ∀ l, d.node? l = some .directory → d'.node? l = some .directory

variable {d d' : Disk} {p : Path} {t : Target}

theorem origin_congr (h : d'.home = d.home) (p : Path) : d'.origin p = d.origin p := by
  rw [origin, origin, h]

theorem resolve_congr (h : d'.home = d.home) (p : Path) : d'.resolve p = d.resolve p := by
  rw [resolve, resolve, origin_congr h]

/-! ### Following the names -/

theorem walk_eq_ok {l l' : Location} {names : List Text} (h : d.walk l names = .ok l') :
    l' = names.foldl Location.enter l := by
  induction names generalizing l with
  | nil =>
    rw [walk] at h
    cases h
    rfl
  | cons name names ih =>
    rw [walk] at h
    split at h
    · cases h
    · split at h
      · cases h
      · cases h
      · exact ih h

theorem walk_mono (hdirs : DirectoriesStay d d') {l l' : Location}
    {names : List Text} (h : d.walk l names = .ok l') : d'.walk l names = .ok l' := by
  induction names generalizing l with
  | nil => exact h
  | cons name names ih =>
    rw [walk] at h ⊢
    split at h
    · cases h
    · next hlength =>
      rw [if_neg hlength]
      split at h
      · cases h
      · cases h
      · next hdir =>
        rw [hdirs _ hdir]
        exact ih h

theorem enterable_eq_ok {t' : Target} (h : d.enterable t = .ok t') : t' = t := by
  rw [enterable] at h
  split at h
  · cases h
  · split at h
    · cases h
    · exact (Except.ok.inj h).symm

theorem enterable_mono (hdirs : DirectoriesStay d d') {t' : Target}
    (h : d.enterable t = .ok t') : d'.enterable t = .ok t' := by
  rw [enterable] at h ⊢
  split at h
  · cases h
  · next hlength =>
    rw [if_neg hlength]
    split at h
    · cases h
    · next hthere =>
      rw [if_neg ?_]
      · exact h
      · rw [Bool.and_eq_true, not_and, bne_iff_ne, not_not] at hthere ⊢
        exact fun hplain => hdirs _ (hthere hplain)

/-! ### Paths -/

/-- **A path that leads somewhere leads where its names lead.** -/
theorem location_of_locate (h : d.locate p = .ok t) : t.location = d.resolve p := by
  rw [locate] at h
  split at h
  · cases h
  · split at h
    · cases h
    · split at h
      · next hlast =>
        split at h
        · next habs =>
          cases h
          rw [resolve, List.getLast?_eq_none_iff.mp hlast, origin, if_pos habs]
          rfl
        · cases h
      · next name hlast =>
        split at h
        · cases h
        · next directory hwalk =>
          rw [enterable_eq_ok h, resolve, ← List.dropLast_append_getLast? name hlast, List.foldl_append,
            ← walk_eq_ok hwalk]
          rfl

/-- **A path leads on to the same place for as long as all directories stay.** -/
theorem locate_mono (hhome : d'.home = d.home)
    (hdirs : DirectoriesStay d d') (h : d.locate p = .ok t) :
    d'.locate p = .ok t := by
  rw [locate] at h ⊢
  split at h
  · cases h
  · next hzero =>
    rw [if_neg hzero]
    split at h
    · cases h
    · next hlength =>
      rw [if_neg hlength]
      cases hlast : p.names.getLast? with
      | none =>
        rw [hlast] at h
        exact h
      | some name =>
        rw [hlast] at h
        simp only [origin_congr hhome] at h ⊢
        cases hwalk : d.walk (d.origin p) p.names.dropLast with
        | error e =>
          rw [hwalk] at h
          cases h
        | ok directory =>
          rw [hwalk] at h
          rw [walk_mono hdirs hwalk]
          exact enterable_mono hdirs h

/-! ### Files -/

theorem find_eq_file_iff {content : Text} :
    d.find p = .ok (.file content) ↔
      ∃ t, d.locate p = .ok t ∧ t.isSlashed = false ∧ d.node? t.location = some (.file content) := by
  rw [find]
  cases hlocate : d.locate p with
  | error e => simp
  | ok t =>
    simp only [Except.ok.injEq, exists_eq_left']
    split
    · next hnone => simp [hnone]
    · next hdir => simp [hdir]
    · next c hfile =>
      rw [hfile]
      cases hslash : t.isSlashed <;> simp

/-- **When the file at a path can be read.** -/
theorem read_eq_ok_iff {content : Text} :
    d.read p = .ok content ↔
      ∃ t, d.locate p = .ok t ∧ t.isSlashed = false ∧ d.node? t.location = some (.file content) := by
  rw [← find_eq_file_iff, read]
  split
  · next hfind => simp [hfind]
  · next hfind => simp [hfind]
  · next hfind => simp [hfind]

theorem node?_resolve_of_read {content : Text} (h : d.read p = .ok content) :
    d.node? (d.resolve p) = some (.file content) := by
  obtain ⟨t, hlocate, -, hnode⟩ := read_eq_ok_iff.mp h
  rwa [← location_of_locate hlocate]

theorem read_of_node? (hhome : d'.home = d.home)
    (hdirs : DirectoriesStay d d') {content content' : Text}
    (h : d.read p = .ok content) (hnode : d'.node? (d.resolve p) = some (.file content')) :
    d'.read p = .ok content' := by
  obtain ⟨t, hlocate, hslash, -⟩ := read_eq_ok_iff.mp h
  rw [← location_of_locate hlocate] at hnode
  exact read_eq_ok_iff.mpr ⟨t, locate_mono hhome hdirs hlocate, hslash, hnode⟩

end Polyfill.Disk
