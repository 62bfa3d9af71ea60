import Polyfill.Proofs.Prune.Imports
import Polyfill.Proofs.Transform.Outcome

/-! # What is left of a dropped import

The name of a dropped import is mentioned nowhere but in what is deleted. The edits of a file start and end at the
borders of identifiers, so printing makes no mention of two parts that stood apart, and what is mentioned in the printed
text stands in a new name.

* `edits_bounded`: no edit of a file cuts an identifier.
* `dropped_import_unmentioned`: no mention of a dropped import is left. -/

namespace Polyfill

open Source Notice Mapping Text Prune Edit

section Parser

variable [SourceParser] [LawfulParser] {c : Config} {entry : Entry} {source : Text} {p : Program}

/-- No edit of a file cuts an identifier where none is next to what goes. -/
theorem edits_bounded (hv : Encoded source) (hp : parse? source = some p)
    (hdel : ∀ g, Gone c.settings.facade (c.judge entry p) source p g → Delimited source g) :
    ∀ e ∈ c.edits entry source p, e.Bounded source := by
  intro e he
  have hd := parse?_declaredIn hv hp
  rcases List.mem_append.mp he with he | he
  · exact prune_edit_bounded hd hv hdel he
  · obtain ⟨r, hr, rfl⟩ := List.mem_map.mp he
    exact renameEdit_bounded hd hr

theorem exists_rename_of_replacement (hv : Encoded source) (hp : parse? source = some p) {e : Edit}
    (he : e ∈ c.edits entry source p) (hne : e.replacement ≠ []) : ∃ r ∈ renames c.table entry p, r.edit = e := by
  rcases List.mem_append.mp he with he | he
  · exact absurd (prune_edit_deletes (parse?_declaredIn hv hp) hv he) hne
  · exact List.mem_map.mp he

theorem exists_rename_of_inserted (hv : Encoded source) (hp : parse? source = some p) {e : Edit} {o : ℕ}
    (he : e ∈ c.edits entry source p) (hins : Inserted source (c.edits entry source p) e o) :
    ∃ r ∈ renames c.table entry p, Inserted source (c.edits entry source p) r.edit o := by
  obtain ⟨r, hr, rfl⟩ := exists_rename_of_replacement hv hp he hins.replacement_ne_nil
  exact ⟨r, hr, hins⟩

/-- **No mention of a dropped import is left.** The walk does not panic. Without a removed notice no import is dropped.
If one is dropped that imports nothing but the facade, and its name is an identifier, then every whole word of the
printed text that is this name, ignoring the case of ASCII letters, has a byte of a new name of a declaration in it; all
its bytes are such, if the declared names that change start and end with bytes of identifiers. What is deleted must not
be next to an identifier: none ends at its start, and none goes on behind its end. -/
theorem dropped_import_unmentioned (c : Config) (entry : Entry) {source : Text} {p : Program}
    (hv : source.isValid = true) (hp : parse? source = some p)
    (hdel : ∀ g, Gone c.settings.facade (c.judge entry p) source p g → Delimited source g) :
    c.prune? entry source p = some (c.prune entry source p) ∧
      ((c.prune entry source p).removed = 0 → (c.prune entry source p).imports = []) ∧
      ∃ printed, applyEdits source (c.edits entry source p) = .ok printed ∧
        (c.transform entry source).text = Header.apply printed entry.identity ∧
        ∀ i ∈ facadeImports c.settings.facade p, i.sole = true → i.span ∈ (c.prune entry source p).imports →
          Name.Segment i.localName → ∀ o, WordAt i.localName printed o →
            (∃ k < i.localName.length, ∃ r ∈ renames c.table entry p,
              Inserted source (c.edits entry source p) r.edit (o + k)) ∧
            ((∀ r ∈ renames c.table entry p,
                source.identAt r.ident.span.start = true ∧ source.identBefore r.ident.span.stop = true) →
              ∀ k < i.localName.length, ∃ r ∈ renames c.table entry p,
                Inserted source (c.edits entry source p) r.edit (o + k)) := by
  have hv := isValid_iff.mp hv
  have hd := parse?_declaredIn hv hp
  have hb := edits_bounded hv hp hdel
  refine ⟨prune?_of_parse hv hp, imports_eq_nil, _, applyEdits_edits hv hp, (transform_of_parse c entry hv hp).2.1, ?_⟩
  intro i hi hsole hspan hname o hword
  have hinserted : ∃ k < i.localName.length, ∃ e ∈ c.edits entry source p,
      Inserted source (c.edits entry source p) e (o + k) := by
    by_contra hno
    push Not at hno
    -- the word stands in the source, where it is deleted
    obtain ⟨q, hq, hmention⟩ := copied_of_wordAt (edits_fit hv hp) (edits_apart hv hp) hb hname hword hno
    obtain ⟨e, he, ht⟩ :=
      mention_deleted hd (mem_droppedImports hd hi hsole hspan) q ((mem_wholeWords_iff hname).mpr hmention)
    exact hq.free e (List.mem_append_left _ he) ht
  refine ⟨?_, fun hnames k hk => ?_⟩
  · obtain ⟨k, hk, e, he, hins⟩ := hinserted
    exact ⟨k, hk, exists_rename_of_inserted hv hp he hins⟩
  · have hreplaced : ∀ e ∈ c.edits entry source p, e.replacement ≠ [] →
        source.identAt e.start = true ∧ source.identBefore e.stop = true := by
      intro e he hne
      obtain ⟨r, hr, rfl⟩ := exists_rename_of_replacement hv hp he hne
      exact hnames r hr
    obtain ⟨e, he, hins⟩ :=
      inserted_of_wordAt (edits_fit hv hp) (edits_apart hv hp) hb hname hword hreplaced hinserted k hk
    exact exists_rename_of_inserted hv hp he hins

end Parser

/-- A class gets the name that a dropped import had: only the new name is left. -/
theorem dropped_import_unmentioned_sample :
    let source := Text.ofString ("<?php\nuse Dev\\Deprecation as Dep;\n" ++
      "class A \x7b function f() \x7b Dep::notice('renamed to B'); \x7d \x7d")
    let c : Config := {}
    let entry : Entry := ⟨.ofString "A", [], .ofString "Dep", [], []⟩
    source.isValid = true ∧ ∃ p, parse? source = some p ∧
      (∀ g, Gone c.settings.facade (c.judge entry p) source p g → Delimited source g) ∧
      ∃ i ∈ facadeImports c.settings.facade p, i.localName = .ofString "Dep" ∧ i.sole = true ∧
        i.span ∈ (c.prune entry source p).imports ∧ Name.Segment i.localName ∧
        ∃ printed, applyEdits source (c.edits entry source p) = .ok printed ∧
          ∀ o, WordAt i.localName printed o → ∀ k < i.localName.length, ∃ r ∈ renames c.table entry p,
            Inserted source (c.edits entry source p) r.edit (o + k) := by
  intro source c entry
  have hv : source.isValid = true := by decide +kernel
  have h : ((parse? source).any fun p =>
      (visitedLists (c.judge entry p).removes p).all (fun l => l.statements.all fun s => Delimited source s.span) &&
      ((droppedImports c.settings.facade (c.judge entry p) source p).all (Delimited source ·.span) &&
      ((renames c.table entry p).all (fun r =>
        source.identAt r.ident.span.start && source.identBefore r.ident.span.stop) &&
      (facadeImports c.settings.facade p).any fun i => i.localName == Text.ofString "Dep" && (i.sole &&
        (c.prune entry source p).imports.contains i.span)))) = true := by decide +kernel
  obtain ⟨p, hp, h⟩ := (Option.any_eq_true _ _).mp h
  simp only [Bool.and_eq_true, List.all_eq_true, List.any_eq_true, decide_eq_true_eq, beq_iff_eq,
    List.contains_iff_mem] at h
  obtain ⟨hlists, himports, hnames, i, hi, hname, hsole, hspan⟩ := h
  have hdel : ∀ g, Gone c.settings.facade (c.judge entry p) source p g → Delimited source g := by
    intro g hg
    cases hg with
    | notice hl hs _ => exact hlists _ hl _ hs
    | stray hl _ hs _ => exact hlists _ hl _ hs
    | unused hi => exact himports _ hi
  have hseg : Name.Segment i.localName := hname ▸ by decide +kernel
  obtain ⟨-, -, printed, happly, -, hword⟩ := dropped_import_unmentioned c entry hv hp hdel
  exact ⟨hv, p, hp, hdel, i, hi, hname, hsole, hspan, hseg, printed, happly,
    fun o h => (hword i hi hsole hspan hseg o h).2 hnames⟩

end Polyfill
