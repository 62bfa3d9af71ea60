import Polyfill.Batch.Write
import Polyfill.Proofs.World.Rough

/-! # Writing a file whole

A write goes through few kinds of disks, whichever step fails and however far it comes then. First there are only
further directories. Then a file stands beside its place, and grows there. In the end it stands at its place, or it is
gone again.

* `Batch.Stage`: these disks.
* `Batch.Wrote`, `Batch.writeWhole_rough`: what a write leaves behind, and that all disks on the way are stages.
* `Batch.writeWhole_run`: the same on the host of a world.
* `Batch.write_all_or_nothing`: what this means for the place of the file, and for all other places. -/

namespace Polyfill.Batch

open Disk World

variable {cut : Nat → Option Nat} {names : Path → World → Text} {w w' : World} {d d₁ d' : Disk} {temporary path : Path}
  {content text : Text} {t : Target} {r : Except FileError Unit}

/-- The directories that a write makes where they are missing. -/
def parentsOf (path : Path) : List Path := (directoryOf path).withAncestors

/-- The path of the temporary file, if its name is asked for in a world. -/
def temporaryOf (names : Path → World → Text) (path : Path) (asked : World) : Path :=
  (directoryOf path).join (names (directoryOf path) asked)

/-- **A disk on which a file is being written.** -/
inductive Stage (names : Path → World → Text) (d : Disk) (path : Path) (text : Text) : Disk → Prop
  /-- There is no file yet, or none any more. -/
  | apart {d' : Disk} : Grown (parentsOf path) d d' → Stage names d path text d'
  /-- The file stands beside its place. -/
  | beside {d₁ d' : Disk} {asked : World} {content : Text} {t : Target} : Grown (parentsOf path) d d₁ →
      Holds d₁ (temporaryOf names path asked) content t d' → Stage names d path text d'
  /-- The file stands at its place. -/
  | whole {d₁ d' : Disk} : Grown (parentsOf path) d d₁ → Replaced d₁ path text d' → Stage names d path text d'

/-- **What a write leaves behind**: with a failure no file is touched, with success only the one at the path, which then
holds the text. -/
def Wrote (d : Disk) (path : Path) (text : Text) (r : Except FileError Unit) (d' : Disk) : Prop :=
  (∃ e, r = .error e) ∧ Grown (parentsOf path) d d' ∨
    r = .ok () ∧ ∃ d₁, Grown (parentsOf path) d d₁ ∧ Replaced d₁ path text d'

/-! ### The steps of a write -/

theorem createDirectories_rough {p : Path} (h : (rough cut names).perform (.createDirectories p) w = (r, w')) :
    Grown p.withAncestors w.disk w'.disk := by
  rcases run_of_rough h with hrun | ⟨⟨-, hdisk⟩, -⟩
  · have hgrown := w.disk.grown_makeDirectories p.withAncestors
    rw [Step.run] at hrun
    rwa [hrun] at hgrown
  · rw [hdisk]
    cases cut w.clock with
    | none => exact .refl _ _
    | some k => exact (w.disk.grown_makeDirectories _).mono (List.drop_subset k _)

theorem save_rough (hholds : Holds d temporary content t w.disk)
    (h : (rough cut names).perform (.save temporary text) w = (r, w')) :
    ∃ content', Holds d temporary content' t w'.disk ∧ (r = .ok () → content' = text) := by
  rcases run_of_rough h with hrun | ⟨⟨⟨e, rfl⟩, hdisk⟩, -⟩
  · have hsaved := hholds.run_save text
    rw [hrun] at hsaved
    exact ⟨text, hsaved, fun _ => rfl⟩
  · rw [hdisk]
    cases cut w.clock with
    | none => exact ⟨content, hholds, by simp⟩
    | some k => exact ⟨text.take k, hholds.run_save _, by simp⟩

theorem giveUp_rough {e : FileError} (hgrown : Grown (parentsOf path) d d₁)
    (hholds : Holds d₁ temporary content t w.disk) (h : giveUp (rough cut names) temporary e w = (r, w')) :
    Passes (Stage names d path text) w w' ∧ Wrote d path text r w'.disk := by
  obtain ⟨discarded, w₁, hdiscard, h⟩ := run_bind h
  cases run_pure h
  have hdisk := hholds.grown_discard
  rw [run_of_rough_discard hdiscard] at hdisk
  have hgrown' := hgrown.trans (hdisk.mono (List.nil_subset _))
  exact ⟨.of_rough hdiscard (.apart hgrown'), Or.inl ⟨⟨e, rfl⟩, hgrown'⟩⟩

/-- Once there is a file beside the place, it is filled and moved, or removed. -/
theorem fillAndMove_rough {asked : World} (hgrown : Grown (parentsOf path) d d₁)
    (hholds : Holds d₁ (temporaryOf names path asked) content t w.disk)
    (h : fillAndMove (rough cut names) (temporaryOf names path asked) path text w = (r, w')) :
    Passes (Stage names d path text) w w' ∧ Wrote d path text r w'.disk := by
  obtain ⟨saved, w₁, hsave, h⟩ := run_bind h
  obtain ⟨content₁, hholds₁, hcontent⟩ := save_rough hholds hsave
  have hpasses₁ : Passes (Stage names d path text) w w₁ := .of_rough hsave (.beside hgrown hholds₁)
  cases saved with
  | error e =>
    obtain ⟨hpasses, hwrote⟩ := giveUp_rough hgrown hholds₁ h
    exact ⟨hpasses₁.trans hpasses, hwrote⟩
  | ok =>
    rw [hcontent rfl] at hholds₁
    obtain ⟨moved, w₂, hrename, h⟩ := run_bind h
    rcases whole_of_rough rfl (fun part => by cases part <;> rfl) hrename with ⟨⟨e, rfl⟩, hdisk⟩ | ⟨rfl, hmoved⟩
    · rw [← hdisk] at hholds₁
      have hpasses₂ : Passes (Stage names d path text) w₁ w₂ := .of_rough hrename (.beside hgrown hholds₁)
      obtain ⟨hpasses, hwrote⟩ := giveUp_rough hgrown hholds₁ h
      exact ⟨hpasses₁.trans (hpasses₂.trans hpasses), hwrote⟩
    · cases run_pure h
      have hreplaced := hholds₁.replaced_rename hmoved
      exact ⟨hpasses₁.trans (.of_rough hrename (.whole hgrown hreplaced)), Or.inr ⟨rfl, d₁, hgrown, hreplaced⟩⟩

/-! ### The whole write -/

/-- **A file is written whole or not at all**, whichever step fails and however far it comes then. -/
theorem writeWhole_rough (h : writeWhole (rough cut names) path text w = (r, w')) :
    Passes (Stage names w.disk path text) w w' ∧ Wrote w.disk path text r w'.disk := by
  obtain ⟨made, w₁, hmake, h⟩ := run_bind h
  have hgrown : Grown (parentsOf path) w.disk w₁.disk := createDirectories_rough hmake
  have hpasses₁ : Passes (Stage names w.disk path text) w w₁ := .of_rough hmake (.apart hgrown)
  cases made with
  | error e =>
    cases run_pure h
    exact ⟨hpasses₁, Or.inl ⟨⟨e, rfl⟩, hgrown⟩⟩
  | ok =>
    obtain ⟨name, w₂, hname, h⟩ := run_bind h
    obtain ⟨rfl, rfl⟩ := Prod.mk.inj hname
    obtain ⟨created, w₃, hcreate, h⟩ := run_bind h
    rcases whole_of_rough rfl (fun part => by cases part <;> rfl) hcreate with ⟨⟨e, rfl⟩, hdisk⟩ | ⟨rfl, hcreated⟩
    · cases run_pure h
      rw [← hdisk] at hgrown
      exact ⟨hpasses₁.trans (.of_rough hcreate (.apart hgrown)), Or.inl ⟨⟨e, rfl⟩, hgrown⟩⟩
    · obtain ⟨t, hholds⟩ := Holds.of_createFile hcreated
      obtain ⟨hpasses, hwrote⟩ := fillAndMove_rough hgrown hholds h
      exact ⟨hpasses₁.trans ((Passes.of_rough hcreate (.beside hgrown hholds)).trans hpasses), hwrote⟩

/-! ### On the host of a world -/

theorem createDirectories_run {p : Path} (h : World.host.perform (.createDirectories p) w = (r, w')) :
    Grown p.withAncestors w.disk w'.disk := by
  rw [host_eq_rough] at h
  exact createDirectories_rough h

theorem writeWhole_run (h : writeWhole World.host path text w = (r, w')) : Wrote w.disk path text r w'.disk := by
  rw [host_eq_rough] at h
  exact (writeWhole_rough h).2

/-! ### All or nothing -/

theorem Stage.node?_resolve (h : Stage names d path text d')
    (hfresh : ∀ asked, d.resolve (temporaryOf names path asked) ≠ d.resolve path) :
    (d'.node? (d.resolve path) = d.node? (d.resolve path) ∨ MadeAt (parentsOf path) d d' (d.resolve path)) ∨
      d'.node? (d.resolve path) = some (.file text) := by
  cases h with
  | apart hgrown => exact Or.inl (hgrown.node? _)
  | beside hgrown hholds =>
    have hbeside := location_of_locate hholds.locate
    rw [hgrown.resolve_eq] at hbeside
    have hne := hbeside ▸ (hfresh _).symm
    exact Or.inl (hgrown.node?_of_eq (by rw [hholds.node?, if_neg hne]))
  | whole hgrown hreplaced =>
    rw [← hgrown.resolve_eq]
    exact Or.inr (by rw [hreplaced.node?, if_pos rfl])

/-- **A write is all or nothing**, whichever step fails and however far it comes then. After each step there is at the
place of the file what was there, or the whole text. A write that fails leaves everything as it was, and one that
succeeds all but the file. Directories on the way to the file do not count. A path can name its own place among these:
then a directory is made there if there is nothing. -/
theorem write_all_or_nothing (cut : Nat → Option Nat) (names : Path → World → Text) (w : World) (path : Path)
    (text : Text) (hfresh : ∀ asked, w.disk.resolve (temporaryOf names path asked) ≠ w.disk.resolve path) :
    let run := writeWhole (rough cut names) path text w
    let place := w.disk.resolve path
    Passes (fun d => (d.node? place = w.disk.node? place ∨ d.node? place = some (.file text)) ∨
      MadeAt (parentsOf path) w.disk d place) w run.2 ∧
    (run.1 ≠ .ok () → ∀ l, run.2.disk.node? l = w.disk.node? l ∨ MadeAt (parentsOf path) w.disk run.2.disk l) ∧
    (run.1 = .ok () → w.disk.node? place ≠ some .directory ∧ run.2.disk.node? place = some (.file text) ∧
      run.2.disk.read path = .ok text ∧
      ∀ l ≠ place, run.2.disk.node? l = w.disk.node? l ∨ MadeAt (parentsOf path) w.disk run.2.disk l) := by
  intro run place
  have hrun : writeWhole (rough cut names) path text w = (run.1, run.2) := rfl
  obtain ⟨hpasses, hwrote⟩ := writeWhole_rough hrun
  refine ⟨hpasses.mono fun d hstage => ?_, fun hfailed => ?_, fun hok => ?_⟩
  · rcases hstage.node?_resolve hfresh with (hold | hmade) | hnew
    · exact Or.inl (Or.inl hold)
    · exact Or.inr hmade
    · exact Or.inl (Or.inr hnew)
  · rcases hwrote with ⟨-, hgrown⟩ | ⟨hok, -⟩
    · exact hgrown.node?
    · exact absurd hok hfailed
  · rcases hwrote with ⟨⟨e, herror⟩, -⟩ | ⟨-, made, hgrown, hreplaced⟩
    · exact absurd (hok.symm.trans herror) (by simp)
    · have hplace : made.resolve path = place := hgrown.resolve_eq path
      refine ⟨fun hdirectory => ?_, ?_, hreplaced.read, fun l hl => ?_⟩
      · exact hreplaced.old (hplace ▸ hgrown.frame.directories _ hdirectory)
      · rw [hreplaced.node?, if_pos hplace.symm]
      · exact hgrown.node?_of_eq (by rw [hreplaced.node?, if_neg (hplace ▸ hl)])

/-- One of two writes meets a full disk, when two bytes of the text are in the file. -/
theorem write_all_or_nothing_sample :
    let text := Text.ofString
    let path := text "out/a"
    let disk : Disk := { entries := [([text "out"], .directory), ([text "out", text "a"], .file (text "old"))] }
    let w : World := { disk, faults := fun n => if n = 2 then some (.other "disk full") else none }
    let cut (k : Nat) : Option Nat := some k
    let names (_ : Path) (_ : World) : Text := text ".tmp"
    let failed := writeWhole (rough cut names) path (text "new") w
    let written := writeWhole (rough cut names) path (text "new") { disk }
    disk.resolve (text "out/.tmp") ≠ disk.resolve path ∧
    (failed.1 = .error (.other "disk full") ∧
      failed.2.history.map (fun d => (d.read (text "out/.tmp")).toOption) = [none, some (text "ne"), some [], none] ∧
      ∀ l, failed.2.disk.node? l = disk.node? l ∨ MadeAt (parentsOf path) disk failed.2.disk l) ∧
    (written.1 = .ok () ∧ written.2.disk.read path = .ok (text "new") ∧ ∀ l ≠ disk.resolve path,
      written.2.disk.node? l = disk.node? l ∨ MadeAt (parentsOf path) disk written.2.disk l) := by
  intro text path disk w cut names failed written
  have hfresh : disk.resolve (text "out/.tmp") ≠ disk.resolve path := by decide +kernel
  have hfailed : failed.1 = .error (.other "disk full") := by decide +kernel
  have hok : written.1 = .ok () := by decide +kernel
  have hrun : writeWhole (rough cut names) path (text "new") w = failed := rfl
  have hrun' : writeWhole (rough cut names) path (text "new") { disk } = written := rfl
  obtain ⟨-, hkept, -⟩ := write_all_or_nothing cut names w path (text "new") fun _ => hfresh
  obtain ⟨-, -, hwritten⟩ := write_all_or_nothing cut names { disk } path (text "new") fun _ => hfresh
  rw [hrun] at hkept
  rw [hrun'] at hwritten
  obtain ⟨-, -, hread, hrest⟩ := hwritten hok
  exact ⟨hfresh, ⟨hfailed, by decide +kernel, hkept (by rw [hfailed]; simp)⟩, hok, hread, hrest⟩

/-- A path can lead to one of the directories that are named on the way. If that one is missing, the write makes it and
then fails, since a file cannot take the place of a directory. -/
theorem directory_in_place_of_file :
    let text := Text.ofString
    let path := text "x/../x"
    let disk : Disk := {}
    let run := writeWhole World.host path (text "new") { disk }
    run.1 = .error .isDirectory ∧ disk.node? (disk.resolve path) = none ∧
      ¬ ∀ d ∈ run.2.history, d.node? (disk.resolve path) = disk.node? (disk.resolve path) ∨
        d.node? (disk.resolve path) = some (.file (text "new")) := by
  decide +kernel

end Polyfill.Batch
