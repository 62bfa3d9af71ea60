import Polyfill.Disk.Step
import Polyfill.Proofs.Disk.Lookup

/-! # What steps leave as it is

A step touches few places. `Disk.Frame` says which: outside them both disks hold the same files, and no directory is
lost. Directories that are made on the way do not count, since they never take the place of a file. To clear a
directory is the one step that loses directories, and it spares all files that do not lie below it.

A file that is written whole stands beside its place first, under a name that is free. `Disk.Holds` is the state in
between: the disk as it was, with one file more.

* `Disk.Grown`, `Disk.grown_makeDirectories`: making directories adds directories at the places named, and no more.
* `Disk.Holds.grown_discard`: the file in between is removed, and then the disk is as it was.
* `Disk.Replaced`, `Disk.Holds.replaced_rename`: the file in between is moved to its place, and no other place changes.
* `Disk.removeTree_clears`: what clearing a directory does. -/

namespace Polyfill.Disk

variable {d d' d'' : Disk} {p : Path} {l : Location}

/-! ### Frames -/

/-- **The second disk differs from the first one in the files at the touched places only.** It may have further
directories. -/
structure Frame (touched : List Location) (d d' : Disk) : Prop where
  home : d'.home = d.home
  directories : DirectoriesStay d d'
  files : ∀ l ∉ touched, ∀ content, d'.node? l = some (.file content) ↔ d.node? l = some (.file content)

namespace Frame

variable {touched touched' : List Location}

theorem refl (touched : List Location) (d : Disk) : Frame touched d d :=
  ⟨rfl, fun _ h => h, fun _ _ _ => Iff.rfl⟩

theorem trans (h : Frame touched d d') (h' : Frame touched' d' d'') : Frame (touched ++ touched') d d'' where
  home := h'.home.trans h.home
  directories l hl := h'.directories l (h.directories l hl)
  files l hl content := by
    rw [List.mem_append, not_or] at hl
    rw [h'.files l hl.2, h.files l hl.1]

theorem resolve_eq (h : Frame touched d d') (p : Path) : d'.resolve p = d.resolve p := resolve_congr h.home p

end Frame

/-! ### Making directories -/

/-- **A directory was made at the place**, to which one of the paths leads. -/
structure MadeAt (ps : List Path) (d d' : Disk) (l : Location) : Prop where
  free : d.node? l = none
  made : d'.node? l = some .directory
  named : ∃ p ∈ ps, d.resolve p = l

/-- **The second disk has further directories only**, at places to which the paths lead. -/
structure Grown (ps : List Path) (d d' : Disk) : Prop where
  home : d'.home = d.home
  node? : ∀ l, d'.node? l = d.node? l ∨ MadeAt ps d d' l

namespace Grown

variable {ps qs : List Path}

theorem refl (ps : List Path) (d : Disk) : Grown ps d d := ⟨rfl, fun _ => Or.inl rfl⟩

theorem node?_of_eq (h : Grown ps d d') (hl : d''.node? l = d'.node? l) :
    d''.node? l = d.node? l ∨ MadeAt ps d d'' l := by
  rcases h.node? l with heq | hmade
  · exact Or.inl (hl.trans heq)
  · exact Or.inr ⟨hmade.free, hl.trans hmade.made, hmade.named⟩

theorem mono (h : Grown ps d d') (hsub : ps ⊆ qs) : Grown qs d d' := by
  refine ⟨h.home, fun l => (h.node? l).imp_right fun hmade => ?_⟩
  obtain ⟨p, hp, hl⟩ := hmade.named
  exact ⟨hmade.free, hmade.made, p, hsub hp, hl⟩

theorem trans (h : Grown ps d d') (h' : Grown ps d' d'') : Grown ps d d'' := by
  refine ⟨h'.home.trans h.home, fun l => ?_⟩
  rcases h'.node? l with heq' | hmade'
  · exact h.node?_of_eq heq'
  · rcases h.node? l with heq | hmade
    · obtain ⟨p, hp, hl⟩ := hmade'.named
      exact Or.inr ⟨heq ▸ hmade'.free, hmade'.made, p, hp, resolve_congr h.home p ▸ hl⟩
    · have hfree := hmade'.free
      rw [hmade.made] at hfree
      cases hfree

theorem frame (h : Grown ps d d') : Frame [] d d' := by
  refine ⟨h.home, fun l hl => ?_, fun l _ content => ?_⟩ <;> rcases h.node? l with heq | hmade
  · rwa [heq]
  · exact hmade.made
  · rw [heq]
  · rw [hmade.free, hmade.made]
    simp

theorem resolve_eq (h : Grown ps d d') (p : Path) : d'.resolve p = d.resolve p := resolve_congr h.home p

end Grown

theorem ne_nil_of_node? (h : d.node? l ≠ some .directory) : l ≠ [] := by
  rintro rfl
  exact h d.node?_nil

theorem grown_makeDirectory (h : d.makeDirectory p = .ok d') : Grown [p] d d' := by
  rw [makeDirectory] at h
  split at h
  · cases h
  · next t hlocate =>
    split at h
    · cases h
    · next hnone =>
      cases h
      refine ⟨rfl, fun l => ?_⟩
      by_cases hl : l = t.location
      · subst hl
        refine Or.inr ⟨hnone, ?_, p, by simp, (location_of_locate hlocate).symm⟩
        rw [node?_put d _ _ (ne_nil_of_node? (by rw [hnone]; simp)), if_pos rfl]
      · rw [node?_put d _ _ (ne_nil_of_node? (by rw [hnone]; simp)), if_neg hl]
        exact Or.inl rfl

/-- **Making directories adds directories**, also if it fails on the way. -/
theorem grown_makeDirectories (d : Disk) (ps : List Path) : Grown ps d (d.makeDirectories ps).2 := by
  induction ps with
  | nil => exact .refl [] d
  | cons p ancestors ih =>
    have ih' := ih.mono (List.subset_cons_self p ancestors)
    rw [makeDirectories]
    split
    · next made hmade => exact (grown_makeDirectory hmade).mono (by simp)
    · split
      · next hpartly => rwa [hpartly] at ih'
      · next hready =>
        rw [hready] at ih'
        split
        · next made hmade => exact ih'.trans ((grown_makeDirectory hmade).mono (by simp))
        · exact ih'
    · exact .refl _ d

/-! ### A file on its way to its place -/

/-- **The second disk is the first with one file more**, at a path where nothing stood. -/
structure Holds (d : Disk) (temporary : Path) (content : Text) (t : Target) (d' : Disk) : Prop where
  locate : d.locate temporary = .ok t
  unslashed : t.isSlashed = false
  free : d.node? t.location = none
  home : d'.home = d.home
  node? : ∀ l, d'.node? l = if l = t.location then some (.file content) else d.node? l

/-- **The second disk is the first with a whole file at a path**, a new one or one in place of another. -/
structure Replaced (d : Disk) (path : Path) (content : Text) (d' : Disk) : Prop where
  home : d'.home = d.home
  old : d.node? (d.resolve path) ≠ some .directory
  node? : ∀ l, d'.node? l = if l = d.resolve path then some (.file content) else d.node? l
  read : d'.read path = .ok content

theorem Replaced.frame {content : Text} (h : Replaced d p content d') : Frame [d.resolve p] d d' := by
  refine ⟨h.home, fun l hl => ?_, fun l hl content' => ?_⟩
  · have hne : l ≠ d.resolve p := by
      rintro rfl
      exact h.old hl
    rwa [h.node?, if_neg hne]
  · rw [h.node?, if_neg (by simpa using hl)]

namespace Holds

variable {temporary : Path} {content : Text} {t : Target}

theorem ne_nil (h : Holds d temporary content t d') : t.location ≠ [] :=
  ne_nil_of_node? (by rw [h.free]; simp)

theorem directories (h : Holds d temporary content t d') : DirectoriesStay d d' := by
  intro l hl
  rw [h.node?, if_neg]
  · exact hl
  · rintro rfl
    rw [h.free] at hl
    cases hl

theorem locate' (h : Holds d temporary content t d') : d'.locate temporary = .ok t :=
  locate_mono h.home h.directories h.locate

theorem of_createFile (h : d.createFile p = .ok d') : ∃ t, Holds d p [] t d' := by
  rw [createFile] at h
  split at h
  · cases h
  · next t hlocate =>
    split at h
    · cases h
    · next hfree =>
      split at h
      · cases h
      · next hslash =>
        cases h
        refine ⟨t, hlocate, by simpa using hslash, hfree, rfl, fun l => ?_⟩
        exact node?_put d _ l (ne_nil_of_node? (by rw [hfree]; simp))

theorem run_save (h : Holds d temporary content t d') (text : Text) :
    Holds d temporary text t (Step.run d' (.save temporary text)).2 := by
  have hsaved : d'.save temporary text = .ok (d'.put t.location (.file text)) := by
    rw [Disk.save, h.locate']
    simp [h.node?, h.unslashed]
  rw [Step.run, hsaved, orUnchanged]
  refine ⟨h.locate, h.unslashed, h.free, h.home, fun l => ?_⟩
  rw [node?_put d' _ l h.ne_nil, h.node?]
  split <;> rfl

/-- **The file in between can be removed**, and then the disk is as it was. -/
theorem grown_discard (h : Holds d temporary content t d') : Grown [] d (Step.run d' (.discard temporary)).2 := by
  have hremoved : d'.removeFile temporary = .ok (d'.erase t.location) := by
    rw [removeFile, h.locate']
    simp [h.node?, h.unslashed]
  rw [Step.run, hremoved, orUnchanged]
  refine ⟨h.home, fun l => Or.inl ?_⟩
  rw [node?_erase d' l h.ne_nil, h.node?]
  split
  · next hl => rw [hl, h.free]
  · rfl

/-- What moving the file in between does: it stands at its place then, and no longer beside it. -/
theorem renameFile_eq (h : Holds d temporary content t d') {path : Path}
    (hrename : d'.renameFile temporary path = .ok d'') :
    ∃ s, d'.locate path = .ok s ∧ s.isSlashed = false ∧ d'.node? s.location ≠ some .directory ∧
      d'' = (d'.erase t.location).put s.location (.file content) := by
  rw [renameFile, h.locate'] at hrename
  cases hpath : d'.locate path with
  | error e =>
    rw [hpath] at hrename
    cases hrename
  | ok s =>
    rw [hpath] at hrename
    cases hplain : s.isPlain with
    | false =>
      simp only [hplain] at hrename
      cases hrename
    | true =>
      simp only [hplain, h.node? t.location, if_true] at hrename
      split at hrename
      · cases hrename
      · next hslash =>
        split at hrename
        · cases hrename
        · next hdir => exact ⟨s, rfl, by simpa using hslash, hdir, (Except.ok.inj hrename).symm⟩

/-- **The file in between can be moved to its place.** -/
theorem replaced_rename (h : Holds d temporary content t d') {path : Path}
    (hrename : d'.renameFile temporary path = .ok d'') : Replaced d path content d'' := by
  obtain ⟨s, hpath, hslash, hdir, rfl⟩ := h.renameFile_eq hrename
  have hplace : s.location = d.resolve path := by rw [location_of_locate hpath, resolve_congr h.home]
  have hnode : ∀ l, ((d'.erase t.location).put s.location (.file content)).node? l =
      if l = s.location then some (.file content) else d.node? l := by
    intro l
    rw [node?_put _ _ l (ne_nil_of_node? hdir), node?_erase d' l h.ne_nil, h.node?]
    split
    · rfl
    · split
      · next hl => rw [hl, h.free]
      · rfl
  have hdirs : DirectoriesStay d' ((d'.erase t.location).put s.location (.file content)) := by
    intro l hl
    have hne : l ≠ s.location := by
      rintro rfl
      exact hdir hl
    rw [hnode, if_neg hne]
    rw [h.node?] at hl
    split at hl
    · cases hl
    · exact hl
  refine ⟨h.home, fun hold => hdir ?_, hplace ▸ hnode,
    read_eq_ok_iff.mpr ⟨s, locate_mono (d := d') rfl hdirs hpath, hslash, by rw [hnode, if_pos rfl]⟩⟩
  rw [hplace]
  exact h.directories _ hold

end Holds

/-! ### Clearing a directory -/

theorem location_ne_nil {t : Target} (hhere : t.name ≠ Path.here) (hup : t.name ≠ Path.up) : t.location ≠ [] := by
  rw [Target.location, Location.enter, if_neg hhere, if_neg hup]
  simp

/-- What removing an empty directory does. -/
theorem removeDirectory_eq_ok (h : d.removeDirectory p = .ok d') :
    d.node? (d.resolve p) = some .directory ∧ d.resolve p ≠ [] ∧ d' = d.erase (d.resolve p) := by
  rw [removeDirectory] at h
  split at h
  · cases h
  · next t hlocate =>
    rw [← location_of_locate hlocate]
    split at h
    · cases h
    · next hhere =>
      split at h
      · cases h
      · next hup =>
        split at h
        · cases h
        · cases h
        · next hdir =>
          split at h
          · exact ⟨hdir, location_ne_nil hhere hup, (Except.ok.inj h).symm⟩
          · cases h

/-- **What clearing a directory does.** No file is new, and those that do not lie below the directory stay. If the
step succeeds, no file below the directory is left. -/
structure Clears (place : Location) (d : Disk) (result : Except FileError Unit) (d' : Disk) : Prop where
  home : d'.home = d.home
  old : ∀ l content, d'.node? l = some (.file content) → d.node? l = some (.file content)
  spared : ∀ l content, d.node? l = some (.file content) → isBelow place l = false → d'.node? l = some (.file content)
  cleared : result = .ok () → ∀ l content, isBelow place l = true → d'.node? l ≠ some (.file content)

theorem Clears.of_error (place : Location) (d : Disk) (e : FileError) : Clears place d (.error e) d :=
  ⟨rfl, fun _ _ h => h, fun _ _ h _ => h, fun h => by cases h⟩

theorem clears_eraseBelow (d : Disk) (place : Location) (result : Except FileError Unit) :
    Clears place d result (d.eraseBelow place) := by
  refine ⟨rfl, fun l content h => ?_, fun l content h hl => ?_, fun _ l content hl => ?_⟩ <;>
    rw [node?_eraseBelow] at *
  · split at h
    · cases h
    · exact h
  · rwa [if_neg (by simp [hl])]
  · simp [hl]

theorem Clears.erase {place : Location} {result : Except FileError Unit} (h : Clears place d result d')
    (hdir : d'.node? l = some .directory) (hl : l ≠ []) : Clears place d result (d'.erase l) := by
  have hfiles : ∀ k content, (d'.erase l).node? k = some (.file content) ↔ d'.node? k = some (.file content) := by
    intro k content
    rw [node?_erase d' k hl]
    split
    · next hk => simp [hk, hdir]
    · rfl
  refine ⟨h.home, fun k content hk => h.old k content ((hfiles k content).mp hk),
    fun k content hk hbelow => (hfiles k content).mpr (h.spared k content hk hbelow), fun hok k content hbelow => ?_⟩
  rw [ne_eq, hfiles]
  exact h.cleared hok k content hbelow

theorem removeTree_clears (d : Disk) (p : Path) :
    Clears (d.resolve p) d (d.removeTree p).1 (d.removeTree p).2 := by
  rw [removeTree]
  split
  · exact .of_error ..
  · next t hlocate =>
    split
    · exact .of_error ..
    · exact .of_error ..
    · rw [location_of_locate hlocate]
      dsimp only
      split
      · next removed hremoved =>
        obtain ⟨hdir, hne, rfl⟩ := removeDirectory_eq_ok hremoved
        exact (clears_eraseBelow d _ _).erase hdir hne
      · exact clears_eraseBelow d _ _
      · exact clears_eraseBelow d _ _

end Polyfill.Disk
