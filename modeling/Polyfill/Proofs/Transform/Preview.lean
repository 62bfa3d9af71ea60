import Polyfill.Proofs.Transform.Outcome

/-! # The survey as a preview

What the survey of a file lists is what the transformation does to it: the sites that are said to go are as many
as are counted and each lies in one deletion, and no deletion touches a site that is said to stay.

* `survey_of_parse`: the survey of a file that parses lists its calls.
* `survey_agrees`: the survey agrees with the transformation. -/

namespace Polyfill

open Source Notice Mapping Text Prune

theorem Edit.eq_of_covers {es : List Edit} {e e' : Edit} {a z : ℕ} (hes : es.Pairwise Edit.Apart) (he : e ∈ es)
    (he' : e' ∈ es) (haz : a < z) (h : e.start ≤ a ∧ z ≤ e.stop) (h' : e'.start ≤ a ∧ z ≤ e'.stop) : e = e' := by
  by_contra hne
  rcases rel_or_rel_of_pairwise hes he he' hne with (h | h) | (h | h) <;> omega

section Parser

variable [SourceParser] [LawfulParser]

/-- The survey of a file that parses lists its calls. -/
theorem survey_of_parse (c : Config) (entry : Entry) {source : Text} {p : Program} (hv : Encoded source)
    (hp : parse? source = some p) :
    c.survey entry source = .ok ((fileCalls (c.judge entry p) p).map (siteAt source)) :=
  withProgram_of_parse hp (survey?_eq (parse?_declaredIn hv hp) hv)

/-- **The survey agrees with the transformation**: the sites come in source order and carry their text, those
that go are as many as the transformation counts, each of them lies in exactly one deletion, and no byte of a
site that stays is deleted. -/
theorem survey_agrees (c : Config) (entry : Entry) {source : Text} {p : Program} (hv : source.isValid = true)
    (hp : parse? source = some p) :
    ∃ sites, c.survey entry source = .ok sites ∧
      sites.Pairwise (fun x y => x.offset < y.offset) ∧
      (∀ x ∈ sites, x.text = source.slice x.offset (x.offset + x.text.length) ∧
        ∃ l ∈ visitedLists (c.judge entry p).removes p, ∃ s ∈ l.statements,
          (c.judge entry p).inspect s = some x.verdict ∧ s.span = ⟨x.offset, x.offset + x.text.length⟩) ∧
      (sites.filter (·.verdict = .remove)).length = (c.transform entry source).removed ∧
      ∃ pruned, c.prune? entry source p = some pruned ∧
        (∀ x ∈ sites, x.verdict = .remove → ∃! e, e ∈ pruned.edits ∧
          e.replacement = [] ∧ e.start ≤ x.offset ∧ x.offset + x.text.length ≤ e.stop) ∧
        ∀ x ∈ sites, x.verdict = .keep → ∀ e ∈ pruned.edits, ∀ i, x.offset ≤ i →
          i < x.offset + x.text.length → e.touches i = false := by
  have hv := isValid_iff.mp hv
  have hd := parse?_declaredIn hv hp
  have hs := fileCalls_surveyed (j := c.judge entry p) hd
  have hspan : ∀ x ∈ fileCalls (c.judge entry p) p, (siteAt source x).span = x.span :=
    fun x hx => siteAt_span (fileCalls_placed hd hv hx)
  -- The end of a site is where the call ends.
  have hstop : ∀ x ∈ fileCalls (c.judge entry p) p,
      (siteAt source x).offset + (siteAt source x).text.length = x.span.stop :=
    fun x hx => congrArg Span.stop (hspan x hx)
  refine ⟨_, survey_of_parse c entry hv hp, ?_, ?_, ?_, _, prune?_of_parse hv hp, ?_, ?_⟩
  · refine List.pairwise_map.mpr (hs.ordered.imp_of_mem fun {x y} hx _ hxy => ?_)
    exact (hs.within x hx).2.1.trans_le hxy
  · rw [List.forall_mem_map]
    intro x hx
    obtain ⟨l, hl, a, z, hlaid, s, hsl, hcall⟩ := exists_of_mem_fileCalls hd hv hx
    rw [hstop x hx]
    exact ⟨rfl, l, hl, s, hsl, hcall.1, hcall.2.symm⟩
  · rw [(transform_of_parse c entry hv hp).2.2.1, List.filter_map, List.length_map]
    refine Eq.trans ?_ (hs.count.trans (Nat.zero_add _))
    exact congrArg List.length (List.filter_congr fun x _ => rfl)
  · rw [List.forall_mem_map]
    intro x hx hr
    rw [hstop x hx]
    obtain ⟨e, he, hcov⟩ := calls_covered hd hv hx hr
    refine ⟨e, ⟨he, prune_edit_deletes hd hv he, hcov⟩, fun e' he' => ?_⟩
    exact Edit.eq_of_covers (prune_edits_apart hd hv) he'.1 he (hs.within x hx).2.1 he'.2.2 hcov
  · rw [List.forall_mem_map]
    intro x hx hk e he i h₁ h₂
    rw [hstop x hx] at h₂
    have h₁ : x.span.start ≤ i := h₁
    have := calls_kept hd hv hx hk he
    simp only [Edit.touches, Bool.and_eq_false_iff, decide_eq_false_iff_not]
    omega

end Parser

/-- A file with one notice that goes and one that stays. -/
theorem survey_agrees_sample :
    let source := Text.ofString ("<?php\nclass A \x7b function f() \x7b Deprecation::notice('renamed to B'); " ++
      "Deprecation::notice('gone'); \x7d \x7d")
    ∃ p, source.isValid = true ∧ parse? source = some p ∧
      ∃ sites, ({} : Config).survey ⟨.ofString "A", [], .ofString "B", [], []⟩ source = .ok sites ∧
        sites.Pairwise fun x y => x.offset < y.offset := by
  intro source
  have hv : source.isValid = true := by decide +kernel
  have hp : (parse? source).isSome = true := by decide +kernel
  obtain ⟨p, hp⟩ := Option.isSome_iff_exists.mp hp
  obtain ⟨sites, hs, ho, -⟩ := survey_agrees {} ⟨.ofString "A", [], .ofString "B", [], []⟩ hv hp
  exact ⟨p, hv, hp, sites, hs, ho⟩

end Polyfill
