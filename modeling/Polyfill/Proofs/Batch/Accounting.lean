import Polyfill.Proofs.Batch.Run
import Polyfill.Source.Parse

/-! # What a run reports and leaves behind

If the generated files and the source files are different files, every entry is worked on as if it were the only one,
except that a later entry replaces what an earlier one wrote to the same file. The report of a run then says exactly
what became of the entries, and the generated files are known from the sources as they were before the run, whatever
reads and writes fail on the way.

* `Accounts`: what a report says and the disk holds.
* `run_accounts`: every run without cleanup that comes to its end accounts for all entries. -/

namespace Polyfill.Batch

open Disk World Mapping

variable {c : Config} {o : Options} {w w' : World} {d d' : Disk} {fates : List Fate} {x : Entry × Text}

/-- No entry is written to the file that an entry is read from, whether or not this file is there. -/
def SourcesApart (c : Config) (o : Options) (d : Disk) : Prop :=
  ∀ e ∈ c.table.entries, ∀ e' ∈ c.table.entries, d.resolve (o.targetOf e) ≠ d.resolve (o.sourceOf e')

instance (c : Config) (o : Options) (d : Disk) : Decidable (SourcesApart c o d) :=
  inferInstanceAs (Decidable (∀ e ∈ c.table.entries, ∀ e' ∈ c.table.entries, _ ≠ _))

/-- **What a run reports and leaves behind**: each entry has one fate, in declared order, and the report is the one on
these fates. The sources of the entries written are those from before the run, and each file written holds what the
source of the last entry written there became. -/
structure Accounts [Source.SourceParser] (c : Config) (o : Options) (start finish : Disk) (report : Report)
    (fates : List Fate) : Prop where
  entries : fates.map Prod.fst = c.table.entries
  report_eq : report = reportOf c o fates
  sources : ∀ x ∈ writtenOf fates, start.node? (start.resolve (o.sourceOf x.1)) = some (.file x.2)
  last : ∀ x ∈ writtenOf fates, ∃ y, lastAt o start fates (start.resolve (o.targetOf x.1)) = some y ∧
    finish.read (o.targetOf x.1) = .ok (c.transform y.1 y.2).text

namespace Processed

variable [Source.SourceParser]

theorem node?_source (h : Processed c o d fates d') (hfates : fates.map Prod.fst = c.table.entries)
    (hapart : SourcesApart c o d) (hx : x ∈ writtenOf fates) :
    d.node? (d.resolve (o.sourceOf x.1)) = some (.file x.2) := by
  obtain ⟨front, rest, d₁, d₂, hsplit, hfront, hworked, -⟩ := h.split_of_mem hx
  have hunwritten : d.resolve (o.sourceOf x.1) ∉ (writtenOf front).map fun y => d.resolve (o.targetOf y.1) := by
    rw [List.mem_map]
    rintro ⟨y, hy, heq⟩
    have hy' : y ∈ writtenOf fates := by
      rw [hsplit, writtenOf_append]
      exact List.mem_append_left _ hy
    exact hapart _ (mem_entries_of_mem_writtenOf hfates hy') _ (mem_entries_of_mem_writtenOf hfates hx) heq
  cases hworked with
  | written hsource _ _ =>
    rw [hfront.frame.resolve_eq] at hsource
    exact (hfront.frame.files _ hunwritten _).mp hsource

theorem read_target (h : Processed c o d fates d') (hx : x ∈ writtenOf fates) :
    ∃ y, lastAt o d fates (d.resolve (o.targetOf x.1)) = some y ∧
      d'.read (o.targetOf x.1) = .ok (c.transform y.1 y.2).text := by
  obtain ⟨y, hlast⟩ := exists_lastAt (o := o) (d := d) (List.mem_map.mpr ⟨x, hx, rfl⟩)
  refine ⟨y, hlast, ?_⟩
  obtain ⟨front, rest, d₁, d₂, -, hfront, hworked, hrest⟩ := h.split_of_mem hx
  cases hworked with
  | written _ hframe hread =>
    -- the path could be read right after the write, and leads to the same place ever since
    have hplace : d₂.resolve (o.targetOf x.1) = d.resolve (o.targetOf x.1) :=
      (hframe.resolve_eq _).trans (hfront.frame.resolve_eq _)
    exact read_of_node? hrest.frame.home hrest.frame.directories hread (hplace ▸ h.node?_of_lastAt hlast)

end Processed

/-- **Every run without cleanup that comes to its end accounts for all entries**, whatever reads and writes fail on the
way. Clearing the output directory needs no condition of its own: an entry whose source is cleared is left out. -/
theorem run_accounts [Source.SourceParser] (hclean : o.cleanup = none) (hapart : SourcesApart c o w.disk)
    {report : Report} (hrun : (run World.host c o).run w = (.ok report, w')) :
    ∃ fates, Accounts c o w.disk w'.disk report fates := by
  obtain ⟨prepared, d, hprepared, ⟨cause, -, hfailed, -⟩ | ⟨fates, -, hfates, hreport, hprocessed⟩⟩ :=
    run_cases hclean hrun
  · cases hfailed
  · refine ⟨fates, hfates, Except.ok.inj hreport, fun x hx => ?_, fun x hx => ?_⟩
    · have hapart' : SourcesApart c o d := by
        intro e he e' he'
        rw [resolve_congr hprepared.home, resolve_congr hprepared.home]
        exact hapart e he e' he'
      rw [← resolve_congr hprepared.home]
      exact hprepared.old _ _ (hprocessed.node?_source hfates hapart' hx)
    · rw [← resolve_congr hprepared.home, ← lastAt_congr hprepared.home]
      exact hprocessed.read_target hx

/-- Two entries share a file, the second cannot be transformed, the third has no source, and the write of the fourth is
made to fail. -/
theorem run_accounts_sample :
    let text := Text.ofString
    let entry (name source target : String) : Entry := ⟨text name, [], text "New", text source, text target⟩
    let c : Config := { table := { entries := [entry "A" "A.php" "X.php", entry "B" "B.php" "./X.php",
      entry "C" "C.php" "Y.php", entry "D" "D.php" "Z.php"] } }
    let o : Options := ⟨text "src", text "out", true, none⟩
    let disk : Disk := { entries := [([text "src"], .directory), ([text "src", text "A.php"], .file (text "<?php\n")),
      ([text "src", text "B.php"], .file (text "<?php (")), ([text "src", text "D.php"], .file (text "<?php\n")),
      ([text "out"], .directory), ([text "out", text "Z.php"], .file (text "old"))] }
    let w : World := { disk, faults := fun n => if n = 15 then some .busy else none }
    let expected (r : Report) (d : Disk) : Bool := r.written == [text "out/X.php", text "out/./X.php"] &&
      r.skipped.map Skipped.identity == [text "C", text "D"] && r.fallbacks == [text "out/./X.php"] &&
      r.prunedStatements == 0 && (d.read (text "out/X.php")).toOption == some (text "<?php (")
    SourcesApart c o w.disk ∧ ∃ report w', (run World.host c o).run w = (.ok report, w') ∧
      expected report w'.disk = true ∧ ∃ fates, Accounts c o w.disk w'.disk report fates := by
  intro text entry c o disk w expected
  have hapart : SourcesApart c o w.disk := by decide +kernel
  have h : (match (run World.host c o).run w with
    | (.ok report, w') => expected report w'.disk
    | (.error _, _) => false) = true := by decide +kernel
  generalize hrun : (run World.host c o).run w = result at h
  obtain ⟨_ | report, w'⟩ := result
  · cases h
  · exact ⟨hapart, report, w', rfl, h, run_accounts rfl hapart hrun⟩

end Polyfill.Batch
