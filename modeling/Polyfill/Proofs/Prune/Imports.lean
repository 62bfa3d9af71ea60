import Polyfill.Proofs.Edit.Words
import Polyfill.Proofs.Prune.Frame

/-! # Imports that go

An import of the facade goes only if its name is mentioned nowhere else than in what is deleted, and imports that go
later only add to that. A deletion starts and ends with what goes, at the ends of its lines or at the braces of a list,
so where no identifier is next to what goes, none is cut, and none is made by joining what is left.

* `mention_deleted`: every mention of the name of an import that goes is deleted.
* `Delimited`: no identifier ends at the start of a range or goes on behind it.
* `prune_edit_bounded`, `renameEdit_bounded`: the edits of a file cut no identifier. -/

namespace Polyfill

open Source Notice Text Mapping

namespace Prune

variable {j : Judge} {source facade : Text} {p : Program} {e : Edit} {i : FacadeImport}

/-! ### Mentions -/

/-- The name of an import that goes is mentioned in the import itself or where something is deleted. -/
theorem covered_of_unused : ∀ {is : List FacadeImport} {edits : List Edit}, i ∈ unusedImports source edits is →
    ∀ o ∈ wholeWords i.localName source, i.span.start ≤ o ∧ o < i.span.stop ∨
      ∃ e ∈ edits ++ (unusedImports source edits is).map fun x => deleteLines source x.span, e.touches o = true
  | x :: is, edits, hi, o, ho => by
    rw [unusedImports] at hi ⊢
    split at hi
    · next hused =>
      rw [if_pos hused]
      exact covered_of_unused hi o ho
    · next hused =>
      rw [if_neg hused, List.map_cons]
      rcases List.mem_cons.mp hi with rfl | hi
      · have h := List.any_eq_false.mp (Bool.eq_false_iff.mpr hused) o ho
        simp only [Bool.and_eq_true, Bool.not_eq_true', not_and, Bool.not_eq_false, Bool.and_eq_false_iff,
          decide_eq_false_iff_not] at h
        by_cases hin : i.span.start ≤ o ∧ o < i.span.stop
        · exact Or.inl hin
        · obtain ⟨e, he, ht⟩ := List.any_eq_true.mp (h (by omega))
          exact Or.inr ⟨e, List.mem_append_left _ he, ht⟩
      · -- this import counts as deleted for those behind it
        rcases covered_of_unused hi o ho with h | ⟨e, he, ht⟩
        · exact Or.inl h
        · rw [List.append_assoc] at he
          exact Or.inr ⟨e, he, ht⟩

theorem imports_eq_nil (h : (prune facade j source p).removed = 0) : (prune facade j source p).imports = [] := by
  have hzero : removedCount j p = 0 := h
  have hnil : droppedImports facade j source p = [] := if_pos hzero
  exact List.map_eq_nil_iff.mpr hnil

/-- **No identifier ends at the start of the range, and none goes on behind it.** -/
structure Delimited (source : Text) (s : Span) : Prop where
  front : source.identBefore s.start = false
  behind : Border source s.stop

instance (source : Text) : DecidablePred (Delimited source) := fun s =>
  decidable_of_iff (source.identBefore s.start = false ∧ Border source s.stop)
    ⟨fun ⟨h, h'⟩ => ⟨h, h'⟩, fun ⟨h, h'⟩ => ⟨h, h'⟩⟩

theorem Delimited.widens {s : Span} {a z : ℕ} (h : Delimited source s) (hw : Widens source s.start s.stop a z) :
    Delimited source ⟨a, z⟩ where
  front := by
    rcases hw.lineStart with rfl | rfl | hline
    · exact h.front
    · exact identBefore_zero source
    · exact identBefore_eq_false hline (by decide)
  behind := by
    rcases hw.lineEnd with rfl | rfl | hline
    · exact h.behind
    · exact border_length source
    · exact fun hb => absurd hb (by simp [identBefore_eq_false hline (by decide)])

/-! ### Files that lie well -/

section Laid

variable [SourceParser]

theorem mem_droppedImports {hi : ℕ} (hd : DeclaredIn source 0 hi (declared p)) (hi : i ∈ facadeImports facade p)
    (hsole : i.sole = true) (hspan : i.span ∈ (prune facade j source p).imports) :
    i ∈ droppedImports facade j source p := by
  obtain ⟨x, hx, hspan⟩ := List.mem_map.mp hspan
  have hxs := droppedImports_sublist.subset hx
  obtain ⟨_, ho⟩ := origin_of_import hd hx
  have hlt := ho.inked.lt
  by_cases heq : i = x
  · exact heq ▸ hx
  · rcases rel_or_rel_of_pairwise (soleImports_ordered hd) (List.mem_filter.mpr ⟨hi, hsole⟩) hxs heq with h | h
    · rw [hspan] at hlt h
      omega
    · rw [hspan] at hlt h
      omega

/-- **Every mention of the name of an import that goes is deleted.** -/
theorem mention_deleted {hi : ℕ} (hd : DeclaredIn source 0 hi (declared p)) (h : i ∈ droppedImports facade j source p) :
    ∀ o ∈ wholeWords i.localName source, ∃ e ∈ (prune facade j source p).edits, e.touches o = true := by
  intro o ho
  obtain ⟨_, horigin⟩ := origin_of_import hd h
  have hw := deleteLines_widens horigin.inked.lt.le horigin.inked.le
  have hcovered : i.span.start ≤ o ∧ o < i.span.stop ∨
      ∃ e ∈ (prune facade j source p).edits, e.touches o = true := by
    have h := h
    simp only [prune, droppedImports, List.map_map, Function.comp_def] at h ⊢
    split at h
    · cases h
    · next hr =>
      simp only [if_neg hr]
      exact covered_of_unused h o ho
  rcases hcovered with hin | hdel
  · refine ⟨deleteLines source i.span, List.mem_append_right _ ?_, ?_⟩
    · exact List.mem_map_of_mem (List.mem_map_of_mem h)
    · have := hw.start_le
      have := hw.le_stop
      rw [Edit.touches_iff]
      omega
  · exact hdel

/-- What is deleted from a statement list. -/
theorem listEdits_delimited {l : StatementList} {lo hi : ℕ} (hl : l.Laid source lo hi)
    (hdel : ∀ s ∈ l.statements, Goes j source s → Delimited source s.span) (he : e ∈ listEdits j source l) :
    Delimited source ⟨e.start, e.stop⟩ := by
  rcases listEdits_cases j source l with ⟨-, hnil⟩ | ⟨-, ⟨b, hb, -, heq⟩ | heq⟩
  · rw [hnil] at he
    cases he
  · rw [heq, List.mem_singleton] at he
    subst he
    obtain ⟨rfl, -, -, -, hfront, hbehind⟩ := hl.braces b hb
    exact ⟨hfront, fun _ => hbehind⟩
  · rw [heq, List.mem_map] at he
    obtain ⟨r, hr, rfl⟩ := he
    have hj := joinSpans_joined (holes_placed hl.statements) (holes_ordered hl.statements) r hr
    obtain ⟨h, hh, hstart, hle⟩ := hj.starts
    obtain ⟨h', hh', hstop⟩ := hj.stops
    obtain ⟨s, hs, hg, rfl⟩ := mem_holes.mp hh
    obtain ⟨s', hs', hg', rfl⟩ := mem_holes.mp hh'
    have hlt := (hl.statements.placed hs).lt
    have hlen := (hl.statements.placed hs').le
    have hr : Delimited source r := ⟨hstart ▸ (hdel s hs hg).front, hstop ▸ (hdel s' hs' hg').behind⟩
    exact hr.widens (deleteLines_widens (by omega) (by omega))

section File

variable {hi : ℕ} (hd : DeclaredIn source 0 hi (declared p))
include hd

/-- **No deletion cuts an identifier** where none is next to what goes. -/
theorem prune_edit_bounded (hv : Encoded source) (hdel : ∀ g, Gone facade j source p g → Delimited source g)
    (he : e ∈ (prune facade j source p).edits) : e.Bounded source := by
  suffices h : Delimited source ⟨e.start, e.stop⟩ from
    ⟨fun hb => absurd hb (by simp [h.front]), h.behind, fun _ hb => absurd hb (by simp [h.front])⟩
  rcases List.mem_append.mp he with he | he
  · obtain ⟨l, hl, he⟩ := List.mem_flatMap.mp he
    obtain ⟨a, z, hlaid⟩ := visitedLists_laid hd hv hl
    refine listEdits_delimited hlaid (fun s hs hg => hdel _ ?_) he
    rcases hg with hg | hg
    · exact .notice hl hs hg
    · exact .stray hl (exists_removes he) hs hg
  · obtain ⟨x, hx, rfl⟩ := List.mem_map.mp he
    obtain ⟨i, hi, rfl⟩ := List.mem_map.mp hx
    obtain ⟨_, ho⟩ := origin_of_import hd hi
    exact (hdel _ (.unused hi)).widens (deleteLines_widens ho.inked.lt.le ho.inked.le)

/-- **No new name cuts an identifier.** -/
theorem renameEdit_bounded {t : Table} {entry : Entry} {r : Rename} (h : r ∈ renames t entry p) :
    r.edit.Bounded source :=
  have hn := name_named hd (ident_mem_declaredNames h)
  ⟨hn.front, hn.behind, fun _ => hn.whole⟩

end File

end Laid

end Prune

end Polyfill
