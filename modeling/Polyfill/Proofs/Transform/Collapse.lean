import Polyfill.Proofs.Prune.Collapse
import Polyfill.Proofs.Transform.Outcome

/-! # Which blocks collapse

Of a block that holds a rename notice the transformation leaves the bare braces if there was nothing else in it but
notices, stray semicolons and white space. A comment, a text outside the code or a statement that stays, also one
that loses all it holds, keeps the block from it. A list that stands in no braces has its notices cut out, whatever
is around them.

* `block_collapses_iff`: the blocks of a file that collapse, and what is left of the others. -/

namespace Polyfill

open Source Notice Mapping Text Prune

section Parser

variable [SourceParser] [LawfulParser]

/-- **A block collapses if and only if it is vacant.** The walk panics in no list. From a list without a rename notice
nothing goes. From a list without braces go its notices and stray semicolons, with the lines on which they stand alone
and the white space between them. Braces stay. If the list between them holds a notice, then all that is between them
goes, as one deletion and the only one there, just when nothing is there but notices, stray semicolons and white space;
otherwise a byte that is no white space stays between them. -/
theorem block_collapses_iff (c : Config) (entry : Entry) {source : Text} {p : Program} (hv : source.isValid = true)
    (hp : parse? source = some p) :
    let j := c.judge entry p
    let deletions := (c.prune entry source p).edits
    c.prune? entry source p = some (c.prune entry source p) ∧
    ∀ l ∈ visitedLists j.removes p,
      listEdits? j source l = some (listEdits j source l) ∧
      ((∀ s ∈ l.statements, j.removes s = false) → listEdits j source l = []) ∧
      (l.braces = none → ∀ e ∈ listEdits j source l, ∃ s ∈ l.statements, ∃ s' ∈ l.statements,
        Goes j source s ∧ Goes j source s' ∧ e = deleteLines source ⟨s.span.start, s'.span.stop⟩) ∧
      ∀ b ∈ l.braces,
        (∀ e ∈ deletions, e.touches (b.start - 1) = false ∧ e.touches b.stop = false) ∧
        ((∃ s ∈ l.statements, j.removes s = true) →
          (listEdits j source l = [.delete b.start b.stop] ↔ Vacant j source l.statements b) ∧
          (.delete b.start b.stop ∈ deletions ↔ Vacant j source l.statements b) ∧
          (Vacant j source l.statements b → ∀ e ∈ deletions,
            e = .delete b.start b.stop ∨ e.stop < b.start ∨ b.stop < e.start) ∧
          (¬ Vacant j source l.statements b → ∃ i, b.start ≤ i ∧ i < b.stop ∧ ¬ BlankAt source i ∧
            ∀ e ∈ deletions, e.touches i = false)) := by
  intro j deletions
  have hv := isValid_iff.mp hv
  have hd := parse?_declaredIn hv hp
  refine ⟨prune?_of_parse hv hp, fun l hl => ?_⟩
  obtain ⟨a, z, hlaid⟩ := visitedLists_laid hd hv hl
  refine ⟨listEdits?_eq hlaid, fun hnone => ?_, fun hb e => listEdits_of_unbraced hlaid hb, fun b hb =>
    ⟨fun e => prune_spares_braces hd hv hl hb, fun hr => ?_⟩⟩
  · refine if_neg fun hany => ?_
    obtain ⟨s, hs, hr⟩ := List.any_eq_true.mp hany
    rw [hnone s hs] at hr
    cases hr
  · have hmem : .delete b.start b.stop ∈ deletions ↔ Vacant j source l.statements b :=
      collapse_mem_iff hd hv hl hr hb
    refine ⟨⟨fun h => hmem.mp ?_, listEdits_of_vacant hv hlaid hr hb⟩, hmem,
      fun h e => eq_collapse_or_apart hd hv hl hb (hmem.mpr h), exists_pruned_survivor hd hv hl hb⟩
    exact List.mem_append_left _ (List.mem_flatMap.mpr ⟨l, hl, by rw [h]; exact List.mem_singleton.mpr rfl⟩)

end Parser

/-- Of two methods the first holds a notice and a semicolon, the second a notice and a comment: the first collapses,
and in the second a byte stays. -/
theorem block_collapses_iff_sample :
    let source := Text.ofString ("<?php\nclass A \x7b function f() \x7b Deprecation::notice('renamed to B');; \x7d\n" ++
      "function g() \x7b Deprecation::notice('renamed to B'); // why\n\x7d \x7d")
    let c : Config := {}
    let entry : Entry := ⟨.ofString "A", [], .ofString "B", [], []⟩
    ∃ p, source.isValid = true ∧ parse? source = some p ∧
      (∃ l ∈ visitedLists (c.judge entry p).removes p, ∃ b ∈ l.braces,
        (∃ s ∈ l.statements, (c.judge entry p).removes s = true) ∧
        Vacant (c.judge entry p) source l.statements b) ∧
      ∃ l ∈ visitedLists (c.judge entry p).removes p, ∃ b ∈ l.braces,
        (∃ s ∈ l.statements, (c.judge entry p).removes s = true) ∧
        ∃ i, b.start ≤ i ∧ i < b.stop ∧ ¬ BlankAt source i ∧
          ∀ e ∈ (c.prune entry source p).edits, e.touches i = false := by
  intro source c entry
  have hv : source.isValid = true := isValid_ofString _
  have hp : ((parse? source).any fun p =>
      ((visitedLists (c.judge entry p).removes p).any fun l => l.braces.any fun b =>
        l.statements.any (c.judge entry p).removes &&
          (c.prune entry source p).edits.contains (.delete b.start b.stop)) &&
      (visitedLists (c.judge entry p).removes p).any fun l => l.braces.any fun b =>
        l.statements.any (c.judge entry p).removes &&
          !(c.prune entry source p).edits.contains (.delete b.start b.stop)) = true := by decide +kernel
  obtain ⟨p, hp, h⟩ := (Option.any_eq_true _ _).mp hp
  simp only [Bool.and_eq_true, List.any_eq_true, Option.any_eq_true, Bool.not_eq_true', List.contains_eq_mem,
    decide_eq_true_eq, decide_eq_false_iff_not] at h
  obtain ⟨⟨l, hl, b, hb, hr, hc⟩, l', hl', b', hb', hr', hc'⟩ := h
  have hleft := (((block_collapses_iff c entry hv hp).2 l hl).2.2.2 b hb).2 hr
  have hright := (((block_collapses_iff c entry hv hp).2 l' hl').2.2.2 b' hb').2 hr'
  refine ⟨p, hv, hp, ⟨l, hl, b, hb, hr, hleft.2.1.mp hc⟩, l', hl', b', hb', hr', ?_⟩
  exact hright.2.2.2 fun hvacant => hc' (hright.2.1.mpr hvacant)

end Polyfill
