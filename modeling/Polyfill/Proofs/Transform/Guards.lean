import Polyfill.Proofs.Prune.Bare
import Polyfill.Proofs.Transform.Outcome

/-! # Control structures keep their bodies

A control structure with a bare body governs exactly that statement. The transformation never takes the first or
the last byte of a bare body, at any depth, so no structure comes to govern the statement behind it.

* `bare_end_survives`: a byte at an end of a bare body is printed.
* `bare_bodies_survive`: bare bodies keep their ends, since only elements of statement lists go. -/

namespace Polyfill

open Source Notice Mapping Text Prune

section Parser

variable [SourceParser] [LawfulParser] {c : Config} {entry : Entry} {source : Text} {p : Program} {s : Stmt}

/-- A byte of a bare body that no deletion touches is printed where it stands. -/
theorem bare_end_survives (hv : Encoded source) (hp : parse? source = some p)
    (hs : s ∈ bareBodies (c.judge entry p).removes p) {i : ℕ} (h₁ : s.span.start ≤ i) (h₂ : i < s.span.stop)
    (hi : ∀ e ∈ (c.prune entry source p).edits, e.touches i = false) :
    Survives source (c.edits entry source p) i (i + 1) := by
  have hd := parse?_declaredIn hv hp
  have hle := (bare_placed hd hv hs).le
  refine survives_of_not_touched (Nat.le_succ i) (by omega) fun e he k hk hk' => ?_
  obtain rfl : k = i := by omega
  rcases List.mem_append.mp he with he | he
  · exact hi e he
  · obtain ⟨r, hr, rfl⟩ := List.mem_map.mp he
    rw [Edit.touches_eq_false_iff]
    rcases bare_apart_rename hd hv hs hr with h | h <;> omega

/-- **Control structures keep their bodies.** The walk does not panic. A statement that it comes to as a bare body has
bytes, no deletion touches the first or the last of them, and both are printed. What goes is an element of a statement
list or an import, and lies in front of a bare body, behind it, or between its ends; all else that is deleted is white
space. -/
theorem bare_bodies_survive (c : Config) (entry : Entry) {source : Text} {p : Program} (hv : source.isValid = true)
    (hp : parse? source = some p) :
    let j := c.judge entry p
    let deletions := (c.prune entry source p).edits
    let es := c.edits entry source p
    c.prune? entry source p = some (c.prune entry source p) ∧
    (∀ s ∈ bareBodies j.removes p, s.span.start < s.span.stop ∧ s.span.stop ≤ source.length ∧
      (∀ e ∈ deletions, e.touches s.span.start = false ∧ e.touches (s.span.stop - 1) = false) ∧
      Survives source es s.span.start (s.span.start + 1) ∧ Survives source es (s.span.stop - 1) s.span.stop ∧
      ∀ g, Gone c.settings.facade j source p g → g.stop ≤ s.span.start ∨ s.span.stop ≤ g.start ∨
        s.span.start < g.start ∧ g.stop < s.span.stop) ∧
    ∀ e ∈ deletions, ∀ i, e.touches i = true →
      (∃ l ∈ visitedLists j.removes p, (∃ x ∈ l.statements, j.removes x = true) ∧ ∃ x ∈ l.statements,
        (j.removes x = true ∨ isStray source x = true) ∧ x.span.start ≤ i ∧ i < x.span.stop) ∨
      (∃ d ∈ droppedImports c.settings.facade j source p, d.span.start ≤ i ∧ i < d.span.stop) ∨
      BlankAt source i := by
  intro j deletions es
  have hv := isValid_iff.mp hv
  have hd := parse?_declaredIn hv hp
  refine ⟨prune?_of_parse hv hp, fun s hs => ?_, fun e he i ht => ?_⟩
  · obtain ⟨hlt, hle, -, -⟩ := bare_placed hd hv hs
    have hends : ∀ e ∈ deletions, e.touches s.span.start = false ∧ e.touches (s.span.stop - 1) = false :=
      fun e he => ⟨(prune_respects hd hv hs he).start hlt, (prune_respects hd hv hs he).last hlt⟩
    refine ⟨hlt, hle, hends, ?_, ?_, fun g hg => hg.respects hd hv hs⟩
    · exact bare_end_survives hv hp hs le_rfl hlt fun e he => (hends e he).1
    · have := bare_end_survives hv hp hs (i := s.span.stop - 1) (by omega) (by omega) fun e he => (hends e he).2
      rwa [show s.span.stop - 1 + 1 = s.span.stop by omega] at this
  · rw [Edit.touches_iff] at ht
    rcases (prune_takes hd hv he).filled i ht.1 ht.2 with ⟨g, hg, hi⟩ | hb
    · cases hg with
      | notice hl hs hr => exact Or.inl ⟨_, hl, ⟨_, hs, hr⟩, _, hs, Or.inl hr, hi⟩
      | stray hl hr hs hg => exact Or.inl ⟨_, hl, hr, _, hs, Or.inr hg, hi⟩
      | unused hd => exact Or.inr (Or.inl ⟨_, hd, hi⟩)
    · exact Or.inr (Or.inr hb)

end Parser

-- A notice that is the whole body of an `if` stays.
example :
    let source := Text.ofString
      "<?php class A \x7b function f($x) \x7b if ($x) Deprecation::notice('renamed to B'); echo 1; \x7d \x7d"
    let outcome := ({} : Config).transform ⟨.ofString "A", [], .ofString "B", [], []⟩ source
    outcome.stage = .headered ∧ outcome.removed = 0 := by
  decide +kernel

/-- A notice that is a bare body stays, next to one in the list around it that goes. -/
theorem bare_bodies_survive_sample :
    let source := Text.ofString ("<?php\nclass A \x7b function f($x) \x7b\nif ($x) Deprecation::notice('renamed to B');\n" ++
      "Deprecation::notice('renamed to B');\necho 1;\n\x7d \x7d")
    let c : Config := {}
    let entry : Entry := ⟨.ofString "A", [], .ofString "B", [], []⟩
    ∃ p, source.isValid = true ∧ parse? source = some p ∧ (c.prune entry source p).removed = 1 ∧
      ∃ s ∈ bareBodies (c.judge entry p).removes p, (c.judge entry p).removes s = true ∧
        Survives source (c.edits entry source p) s.span.start (s.span.start + 1) := by
  intro source c entry
  have hv : source.isValid = true := isValid_ofString _
  have hp : ((parse? source).any fun p => (c.prune entry source p).removed == 1 &&
      (bareBodies (c.judge entry p).removes p).any (c.judge entry p).removes) = true := by decide +kernel
  obtain ⟨p, hp, h⟩ := (Option.any_eq_true _ _).mp hp
  simp only [Bool.and_eq_true, beq_iff_eq, List.any_eq_true] at h
  obtain ⟨hremoved, s, hs, hr⟩ := h
  exact ⟨p, hv, hp, hremoved, s, hs, hr, ((bare_bodies_survive c entry hv hp).2.1 s hs).2.2.2.1⟩

end Polyfill
