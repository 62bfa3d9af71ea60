import Polyfill.Proofs.Batch.Run
import Polyfill.Source.Parse

/-! # Which files survive a run

A run is free to work on any file that its options and the table name: the output directory is cleared wherever it is,
and a target path may lead out of it. All other files survive, those of the source tree among them. The source tree has
no protection of its own: a source file is lost if the output directory lies above it, and replaced if a target path
leads to it. Then an entry that is worked on later reads what was written there.

* `ReadAs`: what an entry can be read as.
* `Processed.origin`: where the content of a file comes from.
* `file_survives`: what becomes of any file in a run.
* `source_file_lost`: two runs that do not leave the source tree as it was. -/

namespace Polyfill.Batch

open Disk World Mapping

section Parser

variable [Source.SourceParser] {c : Config} {o : Options} {w w' : World} {d d' d₀ : Disk} {fates : List Fate}
  {l : Location}

/-- **What an entry can be read as**, behind the entries `before`: its source as it is on the disk at the start, or what
one of those entries became, if that one is written to the place of the source. -/
inductive ReadAs (c : Config) (o : Options) (d : Disk) : List Entry → Entry → Text → Prop
  | start {before : List Entry} {e : Entry} {source : Text} :
    d.node? (d.resolve (o.sourceOf e)) = some (.file source) → ReadAs c o d before e source
  | generated {before front rest : List Entry} {e e' : Entry} {source : Text} : before = front ++ e' :: rest →
    d.resolve (o.targetOf e') = d.resolve (o.sourceOf e) → ReadAs c o d front e' source →
      ReadAs c o d before e (c.transform e' source).text

theorem places_reportOf (hhome : d'.home = d.home) (fates : List Fate) :
    (reportOf c o fates).written.map d.resolve = (writtenOf fates).map fun x => d'.resolve (o.targetOf x.1) := by
  simp only [reportOf, List.map_map, resolve_congr hhome]
  rfl

/-- The content comes from an entry of the row that is written to the place. -/
def Generated (c : Config) (o : Options) (d : Disk) (es : List Entry) (l : Location) (content : Text) : Prop :=
  ∃ front e rest, es = front ++ e :: rest ∧ d.resolve (o.targetOf e) = l ∧
    ∃ source, ReadAs c o d front e source ∧ content = (c.transform e source).text

theorem Generated.append {es : List Entry} {content : Text} (h : Generated c o d es l content) (es' : List Entry) :
    Generated c o d (es ++ es') l content := by
  obtain ⟨front, e, rest, rfl, h⟩ := h
  exact ⟨front, e, rest ++ es', by simp, h⟩

theorem readAs_of_origin {es : List Entry} {e : Entry} {source : Text}
    (h : d.node? (d.resolve (o.sourceOf e)) = some (.file source) ∨
      Generated c o d es (d.resolve (o.sourceOf e)) source) : ReadAs c o d es e source := by
  rcases h with hstart | ⟨front, e', rest, hes, hplace, source', hread, rfl⟩
  · exact .start hstart
  · exact .generated hes hplace hread

/-- **Where the content of a file comes from**: it is that of before, or an entry was written there. -/
theorem Processed.origin (h : Processed c o d fates d') (hhome : d.home = d₀.home)
    (hold : ∀ l content, d.node? l = some (.file content) → d₀.node? l = some (.file content)) {content : Text}
    (hl : d'.node? l = some (.file content)) :
    d₀.node? l = some (.file content) ∨ Generated c o d₀ (fates.map Prod.fst) l content := by
  -- the induction is from the right: what an entry is read as comes from the entries in front of it
  induction fates using List.reverseRecOn generalizing d' l content with
  | nil =>
    cases h
    exact Or.inl (hold l content hl)
  | append_singleton fates f ih =>
    obtain ⟨d₁, hfates, hlast⟩ := h.of_append
    have hhome₁ : d₁.home = d₀.home := hfates.frame.home.trans hhome
    rw [List.map_append]
    cases hlast with
    | cons hworked hnil =>
      cases hnil
      cases hworked with
      | skipped hframe =>
        rw [hframe.files l (by simp)] at hl
        exact (ih hfates hl).imp_right (·.append _)
      | @written e source _ hsource hframe hread =>
        by_cases hplace : d₁.resolve (o.targetOf e) = l
        · have hnode := node?_resolve_of_read hread
          rw [hframe.resolve_eq, hplace, hl] at hnode
          cases hnode
          rw [resolve_congr hhome₁] at hplace hsource
          exact Or.inr ⟨fates.map Prod.fst, e, [], rfl, hplace, source, readAs_of_origin (ih hfates hsource), rfl⟩
        · rw [hframe.files l (by simpa using Ne.symm hplace)] at hl
          exact (ih hfates hl).imp_right (·.append _)

theorem Processed.exists_generated (h : Processed c o d fates d') (hhome : d.home = d₀.home)
    (hold : ∀ l content, d.node? l = some (.file content) → d₀.node? l = some (.file content))
    (hl : l ∈ (writtenOf fates).map fun x => d.resolve (o.targetOf x.1)) :
    ∃ content, Generated c o d₀ (fates.map Prod.fst) l content ∧ d'.node? l = some (.file content) := by
  obtain ⟨⟨e, source⟩, hlast⟩ := exists_lastAt hl
  obtain ⟨hx, hplace⟩ := List.mem_filter.mp (List.mem_of_getLast? hlast)
  obtain ⟨front, rest, d₁, d₂, rfl, hfront, hworked, -⟩ := h.split_of_mem hx
  refine ⟨_, ⟨front.map Prod.fst, e, rest.map Prod.fst, by simp, ?_, source, ?_, rfl⟩, h.node?_of_lastAt hlast⟩
  · rw [← resolve_congr hhome]
    exact of_decide_eq_true hplace
  · cases hworked with
    | written hsource _ _ =>
      rw [resolve_congr (hfront.frame.home.trans hhome)] at hsource
      exact readAs_of_origin (hfront.origin hhome hold hsource)

/-- **What becomes of a file in a run without cleanup.** It stays as it is, unless it lies below an output directory that
is cleared, or a path that was written leads to it. If the run comes to its end, a file that is cleared and not written
is gone, and one that is written holds what some entry for this place became. The text that entry was made from stood at
its source path: at the start of the run, or written there by an earlier entry. -/
theorem file_survives (hclean : o.cleanup = none) {result : Except RunError Report}
    (hrun : (run World.host c o).run w = (result, w')) {content : Text}
    (hfile : w.disk.node? l = some (.file content)) :
    (¬ o.Clears w.disk l → (∀ report, result = .ok report → l ∉ report.written.map w.disk.resolve) →
      w'.disk.node? l = some (.file content)) ∧
    ∀ report, result = .ok report →
      (o.Clears w.disk l → l ∉ report.written.map w.disk.resolve →
        ∀ content', w'.disk.node? l ≠ some (.file content')) ∧
      (l ∈ report.written.map w.disk.resolve →
        ∃ before e after, c.table.entries = before ++ e :: after ∧ w.disk.resolve (o.targetOf e) = l ∧
          ∃ source, ReadAs c o w.disk before e source ∧
            w'.disk.node? l = some (.file (c.transform e source).text)) := by
  obtain ⟨prepared, d, hprepared, ⟨cause, rfl, rfl, rfl⟩ | ⟨fates, rfl, hfates, rfl, hprocessed⟩⟩ :=
    run_cases hclean hrun
  · exact ⟨fun hclears _ => hprepared.spared l content hfile hclears, fun report hreport => by cases hreport⟩
  · have hframe := hprocessed.frame
    refine ⟨fun hclears hunwritten => ?_, fun report hreport => ?_⟩
    · have hl := hunwritten _ rfl
      rw [places_reportOf hprepared.home] at hl
      exact (hframe.files l hl content).mpr (hprepared.spared l content hfile hclears)
    · cases hreport
      simp only [places_reportOf hprepared.home]
      refine ⟨fun hclears hl content' => ?_, fun hl => ?_⟩
      · rw [ne_eq, hframe.files l hl]
        exact hprepared.cleared rfl l content' hclears
      · obtain ⟨_, ⟨front, e, rest, hes, hplace, source, hread, rfl⟩, hnode⟩ :=
          hprocessed.exists_generated hprepared.home hprepared.old hl
        exact ⟨front, e, rest, hfates.symm.trans hes, hplace, source, hread, hnode⟩

end Parser

/-- A source file stays, an old file in the output directory is cleared, and one that is written anew is replaced. -/
theorem file_survives_sample :
    let text := Text.ofString
    let c : Config := { table := { entries := [⟨text "A", [], text "B", text "A.php", text "B.php"⟩] } }
    let o : Options := ⟨text "src", text "out", true, none⟩
    let source : Location := [text "src", text "A.php"]
    let old : Location := [text "out", text "Old.php"]
    let target : Location := [text "out", text "B.php"]
    let disk : Disk := { entries := [([text "src"], .directory), (source, .file (text "<?php\n")),
      ([text "out"], .directory), (old, .file []), (target, .file [])] }
    ∃ report w', (run World.host c o).run { disk } = (.ok report, w') ∧
      w'.disk.node? source = some (.file (text "<?php\n")) ∧ (∀ content, w'.disk.node? old ≠ some (.file content)) ∧
      ∃ e ∈ c.table.entries, ∃ s,
        ReadAs c o disk [] e s ∧ w'.disk.node? target = some (.file (c.transform e s).text) := by
  intro text c o source old target disk
  have h : (match (run World.host c o).run { disk } with
    | (.ok report, _) => report.written == [text "out/B.php"]
    | (.error _, _) => false) = true := by decide +kernel
  generalize hrun : (run World.host c o).run { disk } = result at h
  obtain ⟨_ | report, w'⟩ := result
  · cases h
  · rw [beq_iff_eq] at h
    have hspared := (file_survives (l := source) rfl hrun rfl).1 (by decide +kernel)
    have hcleared := ((file_survives (l := old) rfl hrun rfl).2 report rfl).1 (by decide +kernel)
    have hwritten := ((file_survives (l := target) rfl hrun rfl).2 report rfl).2
    rw [h] at hcleared hwritten
    obtain ⟨before, e, after, hentries, -, s, hread, htext⟩ := hwritten (by decide +kernel)
    obtain rfl : before = [] := by
      have hlen := congrArg List.length hentries
      simp only [c, List.length_append, List.length_cons, List.length_nil] at hlen
      exact List.length_eq_zero_iff.mp (by omega)
    refine ⟨report, w', rfl, hspared ?_, hcleared (by decide +kernel), e, by simp [hentries], s, hread, htext⟩
    intro report' hreport'
    cases hreport'
    rw [h]
    decide +kernel

/-- **A run can change the source tree**: if the output directory is the source directory and is cleared, and also if
nothing is cleared but a target path leads back to a source file. -/
theorem source_file_lost :
    let text := Text.ofString
    let c : Config := { table := { entries := [⟨text "A", [], text "B", text "A.php", text "../src/A.php"⟩] } }
    let clearing : Options := ⟨text "src", text "src", true, none⟩
    let keeping : Options := ⟨text "src", text "out", false, none⟩
    let source : Location := [text "src", text "A.php"]
    let disk : Disk := { entries := [([text "src"], .directory), (source, .file (text "<?php\n"))] }
    ∀ o ∈ [clearing, keeping], o.cleanup = none ∧ isBelow (disk.resolve o.sourceRoot) source = true ∧
      disk.node? source = some (.file (text "<?php\n")) ∧
      ((run World.host c o).run { disk }).2.disk.node? source ≠ some (.file (text "<?php\n")) := by
  decide +kernel

end Polyfill.Batch
