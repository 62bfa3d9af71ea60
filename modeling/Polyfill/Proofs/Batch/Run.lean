import Mathlib.Algebra.GroupWithZero.Nat
import Mathlib.Data.List.Induction
import Polyfill.Batch.Run
import Polyfill.Proofs.Batch.Write

/-! # What a run does

A run makes the output directory ready and then works on the entries one after the other. The work on an entry either
leaves it out, and then touches no file, or writes the file of its target path with what the source became. What a run
leaves on the disk follows from the row of these *fates*, and so does its report.

* `Prepared`: what making the output directory ready does.
* `Worked`: the step of a run, on one entry.
* `Processed`: the steps of a run, on a row of entries.
* `reportOf`, `lastAt`: what is reported of a row of fates, and which entry is the last one written to a place.
* `Processed.frame`, `Processed.node?_of_lastAt`: the files that a row of entries leaves behind.
* `run_cases`: a run without cleanup is made of these. -/

namespace Polyfill.Batch

open Disk World Mapping

variable {c : Config} {o : Options} {w w' : World} {d d' d₁ : Disk}

/-! ### The output directory -/

/-- The place lies below the output directory, which is there and to be cleared. -/
def Options.Clears (o : Options) (d : Disk) (l : Location) : Prop :=
  o.clearOutput = true ∧ d.has o.outputRoot = true ∧ isBelow (d.resolve o.outputRoot) l = true

instance (o : Options) (d : Disk) (l : Location) : Decidable (o.Clears d l) :=
  inferInstanceAs (Decidable (_ ∧ _ ∧ _))

/-- **What making the output directory ready does.** No file is new, and those that are not to be cleared stay. If all
goes well, no file that is to be cleared is left. -/
structure Prepared (o : Options) (d : Disk) (r : Except FileError Unit) (d' : Disk) : Prop where
  home : d'.home = d.home
  old : ∀ l content, d'.node? l = some (.file content) → d.node? l = some (.file content)
  spared : ∀ l content, d.node? l = some (.file content) → ¬ o.Clears d l → d'.node? l = some (.file content)
  cleared : r = .ok () → ∀ l content, o.Clears d l → d'.node? l ≠ some (.file content)

theorem Prepared.trans_frame {r r' : Except FileError Unit} (h : Prepared o d r d₁) (hframe : Frame [] d₁ d')
    (hr : r' = .ok () → r = .ok ()) : Prepared o d r' d' where
  home := hframe.home.trans h.home
  old l content hl := h.old l content ((hframe.files l (by simp) content).mp hl)
  spared l content hl hclears := (hframe.files l (by simp) content).mpr (h.spared l content hl hclears)
  cleared hok l content hclears := by
    rw [ne_eq, hframe.files l (by simp)]
    exact h.cleared (hr hok) l content hclears

theorem Prepared.unchanged (h : ∀ l, ¬ o.Clears d l) (r : Except FileError Unit) : Prepared o d r d :=
  ⟨rfl, fun _ _ hl => hl, fun _ _ hl _ => hl, fun _ l _ hclears => absurd hclears (h l)⟩

theorem Prepared.of_clears {r : Except FileError Unit} (hclear : o.clearOutput = true)
    (hhas : d.has o.outputRoot = true) (h : Disk.Clears (d.resolve o.outputRoot) d r d') : Prepared o d r d' where
  home := h.home
  old := h.old
  spared l content hl hclears := by
    refine h.spared l content hl ?_
    by_contra hbelow
    exact hclears ⟨hclear, hhas, by simpa using hbelow⟩
  cleared hok l content hclears := h.cleared hok l content hclears.2.2

theorem removeTree_run {p : Path} {r : Except FileError Unit} (h : World.host.perform (.removeTree p) w = (r, w')) :
    Disk.Clears (w.disk.resolve p) w.disk r w'.disk := by
  rcases perform_cases h with hrun | ⟨⟨e, rfl⟩, hdisk⟩
  · have hclears := w.disk.removeTree_clears p
    rw [Step.run] at hrun
    rwa [hrun] at hclears
  · rw [hdisk]
    exact .of_error ..

theorem Prepared.createDirectories {cleared r : Except FileError Unit} (hcleared : Prepared o d cleared w.disk)
    (h : (match cleared with
      | .error e => (pure (.error e) : StateM World (Except FileError Unit))
      | .ok () => World.host.perform (.createDirectories o.outputRoot)) w = (r, w')) : Prepared o d r w'.disk := by
  cases cleared with
  | error e =>
    cases run_pure h
    exact hcleared
  | ok => exact hcleared.trans_frame (createDirectories_run h).frame fun _ => rfl

theorem prepare_run {r : Except FileError Unit} (h : prepare World.host o w = (r, w')) :
    Prepared o w.disk r w'.disk := by
  rw [prepare] at h
  split at h
  · next hwanted =>
    obtain ⟨there, w₁, hhas, h⟩ := run_bind h
    obtain ⟨rfl, rfl⟩ := Prod.mk.inj hhas
    split at h
    · next hthere =>
      obtain ⟨cleared, w₁, hclear, h⟩ := run_bind h
      exact Prepared.createDirectories (.of_clears hwanted hthere (removeTree_run hclear)) h
    · next hmissing => exact Prepared.createDirectories (.unchanged (fun l hl => hmissing hl.2.1) (.ok ())) h
  · next hunwanted => exact Prepared.createDirectories (.unchanged (fun l hl => hunwanted hl.1) (.ok ())) h

/-! ### One entry -/

section Parser

variable [Source.SourceParser]

/-- What became of an entry: it was written from a source text, or left out for a reason. -/
abbrev Fate := Entry × Except EntryError Text

/-- What is recorded of an entry that is written from a source text. -/
def recordOf (c : Config) (o : Options) (e : Entry) (source : Text) : Written where
  path := o.targetOf e
  isFallback := (c.transform e source).isFallback
  removed := (c.transform e source).removed

/-- The report with one more fate. -/
def Report.tell (c : Config) (o : Options) (r : Report) (f : Fate) : Report := r.add f.1 (f.2.map (recordOf c o f.1))

/-- **The work on one entry**: if it is left out, no file is touched; if it is written, there is a file at its source
path, and only the file at its target path is touched, which then holds what the source became. -/
inductive Worked (c : Config) (o : Options) (d : Disk) : Fate → Disk → Prop
  | skipped {e : Entry} {err : EntryError} {d' : Disk} : Frame [] d d' → Worked c o d (e, .error err) d'
  | written {e : Entry} {source : Text} {d' : Disk} :
    d.node? (d.resolve (o.sourceOf e)) = some (.file source) → Frame [d.resolve (o.targetOf e)] d d' →
      d'.read (o.targetOf e) = .ok (c.transform e source).text → Worked c o d (e, .ok source) d'

theorem deliver_run {e : Entry} {source : Text} {r : Except EntryError Written}
    (hsource : w.disk.node? (w.disk.resolve (o.sourceOf e)) = some (.file source))
    (h : deliver World.host o e (c.transform e source) w = (r, w')) :
    ∃ fate : Except EntryError Text, r = fate.map (recordOf c o e) ∧ Worked c o w.disk (e, fate) w'.disk := by
  obtain ⟨_, w₁, hemit, h⟩ := run_bind h
  have hdisk := disk_of_emitAll hemit
  obtain ⟨wrote, w₂, hwrite, h⟩ := run_bind h
  have hwrote := writeWhole_run hwrite
  rw [hdisk] at hwrote
  rcases hwrote with ⟨⟨cause, rfl⟩, hgrown⟩ | ⟨rfl, made, hgrown, hreplaced⟩
  · cases run_pure h
    exact ⟨.error (.unwritable (o.targetOf e) cause), rfl, .skipped hgrown.frame⟩
  · obtain ⟨_, w₃, hemit, h⟩ := run_bind h
    cases hemit
    cases run_pure h
    have hframe := hgrown.frame.trans hreplaced.frame
    rw [hgrown.resolve_eq] at hframe
    exact ⟨.ok source, rfl, .written hsource hframe hreplaced.read⟩

/-- **The step of a run.** -/
theorem process_run {e : Entry} {r : Except EntryError Written} (h : process World.host c o e w = (r, w')) :
    ∃ fate : Except EntryError Text, r = fate.map (recordOf c o e) ∧ Worked c o w.disk (e, fate) w'.disk := by
  obtain ⟨isFile, w₁, hfile, h⟩ := run_bind h
  obtain ⟨-, rfl⟩ := Prod.mk.inj hfile
  split at h
  · obtain ⟨text, w₂, hread, h⟩ := run_bind h
    obtain ⟨hdisk, hcontent⟩ := readText_cases hread
    cases text with
    | error cause =>
      cases run_pure h
      refine ⟨.error (.unreadable (o.sourceOf e) cause), rfl, .skipped ?_⟩
      rw [hdisk]
      exact .refl [] _
    | ok source =>
      have hsource := node?_resolve_of_read (hcontent source rfl)
      rw [← hdisk] at hsource ⊢
      exact deliver_run hsource h
  · cases run_pure h
    exact ⟨.error (.missing e.identity (o.sourceOf e)), rfl, .skipped (.refl [] _)⟩

theorem advance_run {e : Entry} {r r' : Report} (h : advance World.host c o r e w = (r', w')) :
    ∃ fate, r' = r.tell c o (e, fate) ∧ Worked c o w.disk (e, fate) w'.disk := by
  obtain ⟨result, w₁, hprocess, h⟩ := run_bind h
  obtain ⟨fate, rfl, hworked⟩ := process_run hprocess
  refine ⟨fate, ?_⟩
  -- the record of an entry that is left out does not change the disk
  cases fate <;> cases h <;> exact ⟨rfl, hworked⟩

/-! ### All entries -/

/-- **The work on a row of entries**, one after the other. -/
inductive Processed (c : Config) (o : Options) : Disk → List Fate → Disk → Prop
  | nil (d : Disk) : Processed c o d [] d
  | cons {d d₁ d' : Disk} {f : Fate} {fates : List Fate} :
    Worked c o d f d₁ → Processed c o d₁ fates d' → Processed c o d (f :: fates) d'

theorem foldlM_advance_run {es : List Entry} {r r' : Report}
    (h : es.foldlM (advance World.host c o) r w = (r', w')) :
    ∃ fates, fates.map Prod.fst = es ∧ r' = fates.foldl (Report.tell c o) r ∧
      Processed c o w.disk fates w'.disk := by
  induction es generalizing r w with
  | nil =>
    cases run_pure h
    exact ⟨[], rfl, rfl, .nil _⟩
  | cons e es ih =>
    rw [List.foldlM_cons] at h
    obtain ⟨r₁, w₁, hadvance, h⟩ := run_bind h
    obtain ⟨fate, rfl, hworked⟩ := advance_run hadvance
    obtain ⟨fates, rfl, rfl, hprocessed⟩ := ih h
    exact ⟨(e, fate) :: fates, rfl, rfl, .cons hworked hprocessed⟩

end Parser

/-! ### The rows of entries written and left out -/

/-- The entries that are written, with their sources. -/
def writtenOf (fates : List Fate) : List (Entry × Text) := fates.filterMap fun f => f.2.toOption.map (f.1, ·)

/-- The entries that are left out, with the reasons. -/
def skippedOf (fates : List Fate) : List (Entry × EntryError) :=
  fates.filterMap fun
    | (e, .error err) => some (e, err)
    | (_, .ok _) => none

/-- The report on a row of fates. -/
def reportOf [Source.SourceParser] (c : Config) (o : Options) (fates : List Fate) : Report where
  written := (writtenOf fates).map fun x => o.targetOf x.1
  skipped := (skippedOf fates).map fun x => ⟨x.1.identity, x.2.message⟩
  fallbacks := ((writtenOf fates).filter fun x => (c.transform x.1 x.2).isFallback).map fun x => o.targetOf x.1
  prunedStatements := ((writtenOf fates).map fun x => (c.transform x.1 x.2).removed).sum

/-- The last of the entries that are written to a place, with its source. -/
def lastAt (o : Options) (d : Disk) (fates : List Fate) (l : Location) : Option (Entry × Text) :=
  ((writtenOf fates).filter fun x => d.resolve (o.targetOf x.1) = l).getLast?

variable {fates : List Fate} {e : Entry} {source : Text} {x : Entry × Text} {l : Location}

@[simp] theorem writtenOf_nil : writtenOf [] = [] := rfl

@[simp] theorem writtenOf_cons_error (err : EntryError) (fates : List Fate) :
    writtenOf ((e, .error err) :: fates) = writtenOf fates := rfl

@[simp] theorem writtenOf_cons_ok (source : Text) (fates : List Fate) :
    writtenOf ((e, .ok source) :: fates) = (e, source) :: writtenOf fates := rfl

@[simp] theorem writtenOf_append (xs ys : List Fate) : writtenOf (xs ++ ys) = writtenOf xs ++ writtenOf ys :=
  List.filterMap_append

@[simp] theorem skippedOf_append (xs ys : List Fate) : skippedOf (xs ++ ys) = skippedOf xs ++ skippedOf ys :=
  List.filterMap_append

@[simp] theorem skippedOf_error (err : EntryError) : skippedOf [(e, .error err)] = [(e, err)] := rfl

@[simp] theorem skippedOf_ok (source : Text) : skippedOf [(e, .ok source)] = [] := rfl

theorem mem_writtenOf : x ∈ writtenOf fates ↔ (x.1, .ok x.2) ∈ fates := by
  rw [writtenOf, List.mem_filterMap]
  constructor
  · rintro ⟨⟨e, fate⟩, hf, hx⟩
    cases fate with
    | error err => cases hx
    | ok source =>
      cases hx
      exact hf
  · intro hx
    exact ⟨_, hx, rfl⟩

theorem mem_entries_of_mem_writtenOf (hfates : fates.map Prod.fst = c.table.entries) (hx : x ∈ writtenOf fates) :
    x.1 ∈ c.table.entries := by
  rw [← hfates]
  exact List.mem_map_of_mem (mem_writtenOf.mp hx)

/-- **The report of a run is the report on the row of its fates.** -/
theorem foldl_tell [Source.SourceParser] (fates : List Fate) :
    fates.foldl (Report.tell c o) {} = reportOf c o fates := by
  induction fates using List.reverseRecOn with
  | nil => rfl
  | append_singleton fates f ih =>
    rw [List.foldl_append, ih, List.foldl_cons, List.foldl_nil]
    obtain ⟨e, fate⟩ := f
    cases fate with
    | error err => simp [Report.tell, Report.add, reportOf, Except.map]
    | ok source =>
      cases hfallback : (c.transform e source).isFallback <;>
        simp [Report.tell, Report.add, reportOf, Except.map, recordOf, hfallback]

theorem lastAt_eq_none_iff :
    lastAt o d fates l = none ↔ l ∉ (writtenOf fates).map fun x => d.resolve (o.targetOf x.1) := by
  simp [lastAt]

theorem exists_lastAt (hl : l ∈ (writtenOf fates).map fun x => d.resolve (o.targetOf x.1)) :
    ∃ x, lastAt o d fates l = some x :=
  Option.ne_none_iff_exists'.mp fun hnone => lastAt_eq_none_iff.mp hnone hl

theorem lastAt_cons_ok (source : Text) (fates : List Fate) (l : Location) :
    lastAt o d ((e, .ok source) :: fates) l =
      (lastAt o d fates l).or (if d.resolve (o.targetOf e) = l then some (e, source) else none) := by
  rw [lastAt, writtenOf_cons_ok, List.filter_cons]
  split
  · next hl =>
    rw [if_pos (by simpa using hl), List.getLast?_cons, lastAt]
    cases (List.filter (fun x => d.resolve (o.targetOf x.1) = l) (writtenOf fates)).getLast? <;> rfl
  · next hl =>
    rw [if_neg (by simpa using hl), Option.or_none]
    rfl

theorem lastAt_congr (h : d'.home = d.home) (fates : List Fate) (l : Location) :
    lastAt o d' fates l = lastAt o d fates l := by
  simp only [lastAt, resolve_congr h]

/-! ### What a row of entries leaves behind -/

namespace Processed

variable [Source.SourceParser]

/-- **Only the files at the target paths of the entries written are touched.** -/
theorem frame (h : Processed c o d fates d') :
    Frame ((writtenOf fates).map fun x => d.resolve (o.targetOf x.1)) d d' := by
  induction h with
  | nil d => exact .refl [] d
  | cons hworked _ ih =>
    cases hworked with
    | skipped hframe =>
      simp only [hframe.resolve_eq] at ih
      exact hframe.trans ih
    | written _ hframe _ =>
      simp only [hframe.resolve_eq] at ih
      exact hframe.trans ih

theorem of_append {xs ys : List Fate} (h : Processed c o d (xs ++ ys) d') :
    ∃ d₁, Processed c o d xs d₁ ∧ Processed c o d₁ ys d' := by
  induction xs generalizing d with
  | nil => exact ⟨d, .nil d, h⟩
  | cons f xs ih =>
    cases h with
    | cons hworked hrest =>
      obtain ⟨d₁, hxs, hys⟩ := ih hrest
      exact ⟨d₁, .cons hworked hxs, hys⟩

/-- **The file at a place holds what the last of the entries written there gives.** -/
theorem node?_of_lastAt (h : Processed c o d fates d') (hlast : lastAt o d fates l = some x) :
    d'.node? l = some (.file (c.transform x.1 x.2).text) := by
  induction h with
  | nil d => cases hlast
  | @cons d d₁ d' f fates hworked hrest ih =>
    cases hworked with
    | skipped hframe => exact ih (by rwa [lastAt_congr hframe.home])
    | @written e source _ hsource hframe hread =>
      rw [lastAt_congr hframe.home] at ih
      rw [lastAt_cons_ok] at hlast
      cases hlater : lastAt o d fates l with
      | some y =>
        rw [hlater, Option.some_or] at hlast
        exact ih (hlater.trans hlast)
      | none =>
        -- nothing is written there later, so the file stays as this entry leaves it
        rw [hlater, Option.none_or] at hlast
        split at hlast
        · next hl =>
          cases hlast
          have hnode := node?_resolve_of_read hread
          rw [hframe.resolve_eq, hl] at hnode
          rw [← lastAt_congr hframe.home, lastAt_eq_none_iff] at hlater
          exact (hrest.frame.files l hlater _).mpr hnode
        · cases hlast

theorem split_of_mem (h : Processed c o d fates d') (hx : x ∈ writtenOf fates) :
    ∃ front rest d₁ d₂, fates = front ++ (x.1, .ok x.2) :: rest ∧ Processed c o d front d₁ ∧
      Worked c o d₁ (x.1, .ok x.2) d₂ ∧ Processed c o d₂ rest d' := by
  obtain ⟨front, rest, rfl⟩ := List.append_of_mem (mem_writtenOf.mp hx)
  obtain ⟨d₁, hfront, hx⟩ := h.of_append
  cases hx with
  | cons hworked hrest => exact ⟨front, rest, d₁, _, rfl, hfront, hworked, hrest⟩

end Processed

/-- **What a run without cleanup is made of.** -/
theorem run_cases [Source.SourceParser] (hclean : o.cleanup = none) {result : Except RunError Report}
    (h : (run World.host c o).run w = (result, w')) :
    ∃ prepared d, Prepared o w.disk prepared d ∧
      ((∃ cause, prepared = .error cause ∧ result = .error (.outputRoot o.outputRoot cause) ∧ w'.disk = d) ∨
        ∃ fates, prepared = .ok () ∧ fates.map Prod.fst = c.table.entries ∧ result = .ok (reportOf c o fates) ∧
          Processed c o d fates w'.disk) := by
  obtain ⟨prepared, w₁, hprepare, h⟩ := run_bind h
  refine ⟨prepared, w₁.disk, prepare_run hprepare, ?_⟩
  cases prepared with
  | error cause =>
    cases run_pure h
    exact Or.inl ⟨cause, rfl, rfl, rfl⟩
  | ok =>
    obtain ⟨_, w₂, hwarn, h⟩ := run_bind h
    obtain ⟨filed, w₃, hentries, h⟩ := run_bind h
    obtain ⟨fates, hfates, rfl, hprocessed⟩ := foldlM_advance_run hentries
    rw [disk_of_emitAll hwarn] at hprocessed
    rw [hclean, foldl_tell] at h
    obtain ⟨cleaned, w₄, hcleanup, h⟩ := run_bind h
    cases run_pure hcleanup
    obtain ⟨_, w₅, hsummary, h⟩ := run_bind h
    cases hsummary
    cases run_pure h
    exact Or.inr ⟨fates, rfl, hfates, rfl, hprocessed⟩

end Polyfill.Batch
