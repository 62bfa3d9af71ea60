import Polyfill.Proofs.Prune.Nesting
import Polyfill.Prune.Basic
import Polyfill.Rename

/-! # The edits of a file

The bodies of methods, the imports and the declared names of a file that lies well are apart, and they start
and end with ink. What goes from the lists of a method stays between its braces, a new name takes the place of
the old one, and an import takes no more than its lines along. So all edits of a file are apart.

* `Around`: an edit stays in a place or takes its lines.
* `statementEdits_apart`, `importEdits_apart`, `renameEdits_apart`: the edits of each sort are apart.
* `Origin`, `Origin.apart`: edits that come from different parts of declarations are apart. -/

namespace Polyfill

open Source Notice Text Mapping

/-- The edit stays in the place, or it takes the lines of the place along. -/
def Around (source : Text) (x : Span) (e : Edit) : Prop :=
  x.start ≤ e.start ∧ e.stop ≤ x.stop ∨ Widens source x.start x.stop e.start e.stop

theorem Around.before {source : Text} {x y : Span} {e e' : Edit} (he : Around source x e)
    (he' : Around source y e') (hx : Inked source x) (hy : Inked source y) (h : x.stop ≤ y.start) :
    e.stop ≤ e'.start := by
  have hlt := hx.lt
  rcases he with he | he
  · rcases he' with he' | he'
    · omega
    · have := he'.lt_start_of_ink (by omega) hx.last
      omega
  · rcases he' with he' | he'
    · have := he.stop_le_of_ink h hy.first
      omega
    · exact he.apart_of_solid he' hlt h hx.last hy.first

namespace Source

/-- The name that a statement declares. -/
def Stmt.declaredName? : Stmt → Option Ident
  | .namespaceDecl _ ident _ => ident
  | .classDecl _ ident _ _ => some ident
  | _ => none

/-- The names of the namespaces and the classes that a file declares, in source order. -/
def declaredNames (p : Program) : List Ident := (declared p).filterMap Stmt.declaredName?

end Source

namespace Prune

variable {j : Judge} {source facade : Text} {t : Table} {entry : Entry} {p : Program} {e e' : Edit}

/-! ### Where edits come from -/

theorem mem_methodBodies {b : Block} (h : b ∈ methodBodies p) : ∃ span ident es ms,
    Stmt.classDecl span ident es ms ∈ declared p ∧ b ∈ ms.filterMap Member.body? := by
  obtain ⟨s, hs, hb⟩ := List.mem_flatMap.mp h
  cases s with
  | classDecl span ident es ms => exact ⟨span, ident, es, ms, hs, hb⟩
  | _ => simp [Stmt.members] at hb

theorem mem_facadeImports {i : FacadeImport} (h : i ∈ facadeImports facade p) :
    ∃ imports, Stmt.importDecl i.span imports ∈ declared p := by
  obtain ⟨s, hs, hi⟩ := List.mem_flatMap.mp h
  cases s with
  | importDecl span imports =>
    cases imports with
    | none => simp [facadeImportsIn] at hi
    | some imports =>
      obtain ⟨x, -, rfl⟩ := List.mem_map.mp hi
      exact ⟨_, hs⟩
  | _ => simp [facadeImportsIn] at hi

theorem unusedImports_sublist : ∀ {is : List FacadeImport} {edits : List Edit},
    (unusedImports source edits is).Sublist is
  | [], _ => .slnil
  | i :: is, edits => by
    rw [unusedImports]
    split
    · exact unusedImports_sublist.cons _
    · exact unusedImports_sublist.cons_cons _

theorem droppedImports_sublist :
    (droppedImports facade j source p).Sublist (soleImports facade p) := by
  rw [droppedImports]
  split
  · exact List.nil_sublist _
  · exact unusedImports_sublist

theorem mem_declaredNames {n : Ident} (h : n ∈ declaredNames p) :
    (∃ span ss, Stmt.namespaceDecl span (some n) ss ∈ declared p) ∨
      ∃ span es ms, Stmt.classDecl span n es ms ∈ declared p := by
  obtain ⟨s, hs, hn⟩ := List.mem_filterMap.mp h
  cases s with
  | namespaceDecl span ident ss =>
    cases hn
    exact Or.inl ⟨span, ss, hs⟩
  | classDecl span ident es ms =>
    cases hn
    exact Or.inr ⟨span, es, ms, hs⟩
  | _ => cases hn

theorem declaredName?_of_renameOf {s : Stmt} {r : Rename} (h : renameOf t entry s = some r) :
    s.declaredName? = some r.ident := by
  cases s with
  | namespaceDecl span ident ss =>
    cases ident with
    | none => simp [renameOf] at h
    | some ident =>
      obtain ⟨target, -, rfl⟩ := Option.map_eq_some_iff.mp h
      rfl
  | classDecl span ident es ms =>
    obtain ⟨target, -, rfl⟩ := Option.map_eq_some_iff.mp h
    rfl
  | _ => simp [renameOf] at h

theorem ident_mem_declaredNames {r : Rename} (h : r ∈ renames t entry p) : r.ident ∈ declaredNames p := by
  obtain ⟨s, hs, hr⟩ := List.mem_filterMap.mp h
  exact List.mem_filterMap.mpr ⟨s, hs, declaredName?_of_renameOf hr⟩

/-! ### Files that lie well -/

section Laid

variable [SourceParser]

/-- The edit comes from the part `x` of the declaration `s`. -/
structure Origin (source : Text) (p : Program) (s : Stmt) (x : Span) (e : Edit) : Prop where
  mem : s ∈ declared p
  part : x ∈ s.parts
  inked : Inked source x
  around : Around source x e

section File

variable {hi : ℕ} (hd : DeclaredIn source 0 hi (declared p))
include hd

/-- Edits from parts of different declarations are apart. -/
theorem Origin.apart {s s' : Stmt} {x x' : Span} (h : Origin source p s x e) (h' : Origin source p s' x' e')
    (hne : s ≠ s') : Edit.Apart e e' := by
  rcases rel_or_rel_of_pairwise hd.ordered h.mem h'.mem hne with hb | hb
  · exact Or.inl (h.around.before h'.around h.inked h'.inked (hb x h.part x' h'.part))
  · exact Or.inr (h'.around.before h.around h'.inked h.inked (hb x' h'.part x h.part))

theorem methodBodies_laid {b : Block} (hb : b ∈ methodBodies p) : b.Laid source := by
  obtain ⟨span, ident, es, ms, hs, hb⟩ := mem_methodBodies hb
  have hl := hd.laid _ hs
  rw [Stmt.DeclaredLaid] at hl
  exact hl.2.2.2.laid hb

theorem methodBodies_ordered : (methodBodies p).Pairwise fun a b => a.place.stop ≤ b.place.start := by
  rw [methodBodies, List.pairwise_flatMap]
  constructor
  · intro s hs
    cases s with
    | classDecl span ident es ms =>
      have hl := hd.laid _ hs
      rw [Stmt.DeclaredLaid] at hl
      exact hl.2.2.2.ordered
    | _ => simp [Stmt.members]
  · refine hd.ordered.imp fun {s s'} hb a ha b hb' => ?_
    cases s with
    | classDecl span ident es ms =>
      cases s' with
      | classDecl span' ident' es' ms' =>
        exact hb _ (List.mem_cons_of_mem _ (List.mem_map_of_mem ha)) _
          (List.mem_cons_of_mem _ (List.mem_map_of_mem hb'))
      | _ => simp [Stmt.members] at hb'
    | _ => simp [Stmt.members] at ha

theorem origin_of_body {b : Block} (hb : b ∈ methodBodies p) : ∃ span ident es ms,
    Origin source p (.classDecl span ident es ms) b.place (.delete b.place.start b.place.stop) ∧
      b ∈ ms.filterMap Member.body? := by
  have hlaid := methodBodies_laid hd hb
  obtain ⟨span, ident, es, ms, hs, hb⟩ := mem_methodBodies hb
  exact ⟨span, ident, es, ms, ⟨hs, List.mem_cons_of_mem _ (List.mem_map_of_mem hb), hlaid.solid.inked,
    Or.inl ⟨le_rfl, le_rfl⟩⟩, hb⟩

theorem exists_body (hv : Encoded source) (he : e ∈ statementEdits j source p) :
    ∃ b ∈ methodBodies p, b.place.start ≤ e.start ∧ e.stop ≤ b.place.stop := by
  obtain ⟨l, hl, he⟩ := List.mem_flatMap.mp he
  obtain ⟨b, hb, hl⟩ := List.mem_flatMap.mp hl
  exact ⟨b, hb, (Block.tidy hv b (methodBodies_laid hd hb)).inside hv hl he⟩

theorem origin_of_import {i : FacadeImport} (h : i ∈ droppedImports facade j source p) :
    ∃ imports, Origin source p (.importDecl i.span imports) i.span (deleteLines source i.span) := by
  obtain ⟨imports, hs⟩ := mem_facadeImports (List.mem_of_mem_filter (droppedImports_sublist.subset h))
  have hl := hd.laid _ hs
  rw [Stmt.DeclaredLaid] at hl
  exact ⟨imports, hs, List.mem_singleton.mpr rfl, hl.inked, Or.inr (deleteLines_widens hl.lt.le hl.le)⟩

theorem name_named {n : Ident} (h : n ∈ declaredNames p) : Named source n := by
  rcases mem_declaredNames h with ⟨span, ss, hs⟩ | ⟨span, es, ms, hs⟩
  · have hl := hd.laid _ hs
    rw [Stmt.DeclaredLaid] at hl
    obtain ⟨mid, -, hi, -⟩ := hl
    exact (hi _ rfl).1
  · have hl := hd.laid _ hs
    rw [Stmt.DeclaredLaid] at hl
    exact hl.2.1

theorem origin_of_name {n : Ident} (h : n ∈ declaredNames p) (hstart : n.span.start ≤ e.start)
    (hstop : e.stop ≤ n.span.stop) :
    (∃ span ss, Origin source p (.namespaceDecl span (some n) ss) n.span e) ∨
      ∃ span es ms, Origin source p (.classDecl span n es ms) n.span e := by
  have hi := (name_named hd h).toInked
  rcases mem_declaredNames h with ⟨span, ss, hs⟩ | ⟨span, es, ms, hs⟩
  · exact Or.inl ⟨span, ss, hs, by simp [Stmt.parts], hi, Or.inl ⟨hstart, hstop⟩⟩
  · exact Or.inr ⟨span, es, ms, hs, by simp [Stmt.parts], hi, Or.inl ⟨hstart, hstop⟩⟩

theorem body_apart_import {b : Block} (hb : b ∈ methodBodies p) {i : FacadeImport}
    (hi : i ∈ droppedImports facade j source p) :
    Edit.Apart (.delete b.place.start b.place.stop) (deleteLines source i.span) := by
  obtain ⟨span, ident, es, ms, ho, -⟩ := origin_of_body hd hb
  obtain ⟨_, ho'⟩ := origin_of_import hd hi
  exact ho.apart hd ho' (by simp)

theorem body_apart_name {b : Block} (hb : b ∈ methodBodies p) {n : Ident} (hn : n ∈ declaredNames p) :
    Edit.Apart (.delete b.place.start b.place.stop) (.delete n.span.start n.span.stop) := by
  obtain ⟨span, ident, es, ms, ho, hb⟩ := origin_of_body hd hb
  rcases origin_of_name hd (e := .delete n.span.start n.span.stop) hn le_rfl le_rfl with
    ⟨_, _, ho'⟩ | ⟨span', es', ms', ho'⟩
  · exact ho.apart hd ho' (by simp)
  · by_cases hs : Stmt.classDecl span ident es ms = .classDecl span' n es' ms'
    · -- In one class the name stands in front of all bodies.
      cases hs
      have hl := hd.laid _ ho.mem
      rw [Stmt.DeclaredLaid] at hl
      exact Or.inr (hl.2.2.2.bounds hb).1
    · exact ho.apart hd ho' hs

theorem body_apart_rename {b : Block} (hb : b ∈ methodBodies p) {r : Rename} (hr : r ∈ renames t entry p) :
    Edit.Apart (.delete b.place.start b.place.stop) r.edit :=
  body_apart_name hd hb (ident_mem_declaredNames hr)

/-! ### The edits of one sort -/

theorem statementEdits_apart (hv : Encoded source) :
    (statementEdits j source p).Pairwise Edit.Apart := by
  rw [statementEdits, visitedLists, List.flatMap_assoc, List.pairwise_flatMap]
  refine ⟨fun b hb => (Block.tidy hv b (methodBodies_laid hd hb)).apart, ?_⟩
  refine (methodBodies_ordered hd).imp_of_mem fun {a b} ha hb hab x hx y hy => Or.inl ?_
  obtain ⟨l, hl, hx⟩ := List.mem_flatMap.mp hx
  obtain ⟨l', hl', hy⟩ := List.mem_flatMap.mp hy
  have h₁ := (Block.tidy hv a (methodBodies_laid hd ha)).inside hv hl hx
  have h₂ := (Block.tidy hv b (methodBodies_laid hd hb)).inside hv hl' hy
  exact h₁.2.trans (hab.trans h₂.1)

theorem soleImports_ordered :
    (soleImports facade p).Pairwise fun a b => a.span.stop ≤ b.span.start := by
  rw [soleImports, facadeImports, List.filter_flatMap, List.pairwise_flatMap]
  constructor
  · intro s _
    -- A statement with one imported name gives at most one import, any other gives none that is sole.
    cases s with
    | importDecl span imports =>
      cases imports with
      | none => simp [facadeImportsIn]
      | some imports =>
        match imports with
        | [] => simp [facadeImportsIn]
        | [i] =>
          refine List.Pairwise.sublist List.filter_sublist ?_
          simp only [facadeImportsIn, List.filter_cons, List.filter_nil]
          split <;> simp
        | i :: i' :: is => simp [facadeImportsIn, List.filter_map, Function.comp_def]
    | _ => simp [facadeImportsIn]
  · refine hd.ordered.imp fun {s s'} hb a ha b hb' => ?_
    have hspan : ∀ {s : Stmt} {i : FacadeImport}, i ∈ (facadeImportsIn facade s).filter (·.sole) →
        i.span ∈ s.parts := by
      intro s i hi
      have hi := List.mem_of_mem_filter hi
      cases s with
      | importDecl span imports =>
        cases imports with
        | none => simp [facadeImportsIn] at hi
        | some imports =>
          obtain ⟨x, -, rfl⟩ := List.mem_map.mp hi
          simp [Stmt.parts, Stmt.span]
      | _ => simp [facadeImportsIn] at hi
    exact hb _ (hspan ha) _ (hspan hb')

theorem importEdits_apart :
    (((droppedImports facade j source p).map (·.span)).map (deleteLines source)).Pairwise Edit.Apart := by
  rw [List.map_map, List.pairwise_map]
  refine ((soleImports_ordered hd).sublist droppedImports_sublist).imp_of_mem fun {a b} ha hb hab => Or.inl ?_
  obtain ⟨_, ho⟩ := origin_of_import hd ha
  obtain ⟨_, ho'⟩ := origin_of_import hd hb
  exact ho.around.before ho'.around ho.inked ho'.inked hab

omit [SourceParser] hd in
theorem span_mem_parts {s : Stmt} {n : Ident} (h : s.declaredName? = some n) : n.span ∈ s.parts := by
  cases s with
  | namespaceDecl span ident ss =>
    cases h
    simp [Stmt.parts]
  | classDecl span ident es ms =>
    cases h
    simp [Stmt.parts]
  | _ => cases h

theorem declaredNames_ordered : (declaredNames p).Pairwise fun a b => a.span.stop ≤ b.span.start := by
  rw [declaredNames, List.pairwise_filterMap]
  refine hd.ordered.imp fun {s s'} hb n hn n' hn' => ?_
  exact hb _ (span_mem_parts hn) _ (span_mem_parts hn')

theorem renameEdits_apart : ((renames t entry p).map Rename.edit).Pairwise Edit.Apart := by
  rw [List.pairwise_map, renames, List.pairwise_filterMap]
  refine hd.ordered.imp fun {s s'} hb r hr r' hr' => Or.inl ?_
  exact hb _ (span_mem_parts (declaredName?_of_renameOf hr)) _ (span_mem_parts (declaredName?_of_renameOf hr'))

/-! ### All edits -/

theorem visitedLists_laid (hv : Encoded source) {l : StatementList} (hl : l ∈ visitedLists j.removes p) :
    ∃ a z, l.Laid source a z := by
  obtain ⟨b, hb, hl⟩ := List.mem_flatMap.mp hl
  obtain ⟨a, z, -, -, hlaid⟩ := (Block.tidy hv b (methodBodies_laid hd hb)).laid l hl
  exact ⟨a, z, hlaid⟩

theorem statementEdit_deletion (hv : Encoded source) (he : e ∈ statementEdits j source p) :
    ∃ l ∈ visitedLists j.removes p, ∃ a z, Deletion j source a z l e ∧ ∃ s ∈ l.statements, j.removes s = true := by
  obtain ⟨l, hl, he⟩ := List.mem_flatMap.mp he
  obtain ⟨a, z, hlaid⟩ := visitedLists_laid hd hv hl
  exact ⟨l, hl, a, z, listEdits_deletion hv hlaid e he, exists_removes he⟩

theorem importEdit_fits (hv : Encoded source) {i : FacadeImport}
    (h : i ∈ droppedImports facade j source p) : (deleteLines source i.span).Fits source := by
  obtain ⟨_, ho⟩ := origin_of_import hd h
  have hlt := ho.inked.lt
  have hw := deleteLines_widens hlt.le ho.inked.le
  have hb := hw.isBoundary hv hlt.le ho.inked.opens ho.inked.closes
  have := hw.start_le
  have := hw.le_stop
  exact ⟨by omega, hw.stop_le, hb.1, hb.2⟩

theorem renameEdit_fits {r : Rename} (h : r ∈ renames t entry p) : r.edit.Fits source := by
  have hi := name_named hd (ident_mem_declaredNames h)
  exact ⟨hi.lt, hi.le, hi.opens, hi.closes⟩

theorem prune_edits_apart_names (hv : Encoded source) {n : Ident} (he : e ∈ (prune facade j source p).edits)
    (hn : n ∈ declaredNames p) : Edit.Apart e (.delete n.span.start n.span.stop) := by
  rcases List.mem_append.mp he with he | he
  · obtain ⟨b, hb, h₁, h₂⟩ := exists_body hd hv he
    exact (body_apart_name hd hb hn).within h₁ h₂
  · obtain ⟨x, hx, rfl⟩ := List.mem_map.mp he
    obtain ⟨i, hi, rfl⟩ := List.mem_map.mp hx
    obtain ⟨_, ho⟩ := origin_of_import hd hi
    rcases origin_of_name hd (e := .delete n.span.start n.span.stop) hn le_rfl le_rfl with
      ⟨_, _, ho'⟩ | ⟨_, _, _, ho'⟩
    · exact ho.apart hd ho' (by simp)
    · exact ho.apart hd ho' (by simp)

theorem prune_edits_apart (hv : Encoded source) : (prune facade j source p).edits.Pairwise Edit.Apart := by
  refine List.pairwise_append.mpr ⟨statementEdits_apart hd hv, importEdits_apart hd, fun e he e' he' => ?_⟩
  obtain ⟨b, hb, h₁, h₂⟩ := exists_body hd hv he
  obtain ⟨x, hx, rfl⟩ := List.mem_map.mp he'
  obtain ⟨i, hi, rfl⟩ := List.mem_map.mp hx
  exact (body_apart_import hd hb hi).within h₁ h₂

theorem prune_edit_cases (hv : Encoded source) {b : Block} (hb : b ∈ methodBodies p)
    (he : e ∈ (prune facade j source p).edits) :
    (∃ l ∈ b.lists j.removes, e ∈ listEdits j source l) ∨ e.stop ≤ b.place.start ∨ b.place.stop ≤ e.start := by
  rcases List.mem_append.mp he with he | he
  · obtain ⟨l, hl, he⟩ := List.mem_flatMap.mp he
    obtain ⟨b', hb', hl⟩ := List.mem_flatMap.mp hl
    by_cases heq : b = b'
    · exact Or.inl ⟨l, heq ▸ hl, he⟩
    · have hin := (Block.tidy hv b' (methodBodies_laid hd hb')).inside hv hl he
      rcases rel_or_rel_of_pairwise (methodBodies_ordered hd) hb hb' heq with h | h
      · exact Or.inr (Or.inr (h.trans hin.1))
      · exact Or.inr (Or.inl (hin.2.trans h))
  · obtain ⟨x, hx, rfl⟩ := List.mem_map.mp he
    obtain ⟨i, hi, rfl⟩ := List.mem_map.mp hx
    exact Or.inr (body_apart_import hd hb hi).symm

theorem prune_edit_deletes (hv : Encoded source) (he : e ∈ (prune facade j source p).edits) :
    e.replacement = [] := by
  rcases List.mem_append.mp he with he | he
  · obtain ⟨l, -, a, z, hdel, -⟩ := statementEdit_deletion hd hv he
    exact hdel.replacement
  · obtain ⟨x, -, rfl⟩ := List.mem_map.mp he
    rfl

theorem prune_edits_fit (hv : Encoded source) : ∀ e ∈ (prune facade j source p).edits, e.Fits source := by
  intro e he
  rcases List.mem_append.mp he with he | he
  · obtain ⟨l, -, a, z, hdel, -⟩ := statementEdit_deletion hd hv he
    exact hdel.fits
  · obtain ⟨x, hx, rfl⟩ := List.mem_map.mp he
    obtain ⟨i, hi, rfl⟩ := List.mem_map.mp hx
    exact importEdit_fits hd hv hi

/-- **All edits of a file fit it**: they replace bytes of it and cut no character. -/
theorem edits_fit (hv : Encoded source) :
    ∀ e ∈ (prune facade j source p).edits ++ (renames t entry p).map Rename.edit, e.Fits source := by
  intro e he
  rcases List.mem_append.mp he with he | he
  · exact prune_edits_fit hd hv e he
  · obtain ⟨r, hr, rfl⟩ := List.mem_map.mp he
    exact renameEdit_fits hd hr

/-- **All edits of a file are apart.** -/
theorem edits_apart (hv : Encoded source) :
    ((prune facade j source p).edits ++ (renames t entry p).map Rename.edit).Pairwise Edit.Apart := by
  refine List.pairwise_append.mpr ⟨prune_edits_apart hd hv, renameEdits_apart hd, fun e he e' he' => ?_⟩
  obtain ⟨r, hr, rfl⟩ := List.mem_map.mp he'
  exact prune_edits_apart_names hd hv he (ident_mem_declaredNames hr)

end File

end Laid

end Prune

end Polyfill
