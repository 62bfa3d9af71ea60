import Polyfill.Proofs.Prune.Bare

/-! # Blocks that collapse

A block whose list holds nothing but rename notices, stray semicolons and white space loses all between its braces.
A block that holds anything else keeps a byte that is no white space: the last one of a statement with lists of its
own, or, if there is no such statement, a byte that no hole of the list holds. Neither is taken by the deletions
from the lists further inside, and those from all other lists stay away from the braces. The induction follows the
walk, as that over the deletions does.

* `Vacant`: there is nothing but what goes and white space between the braces of a list.
* `ComesFrom`: a deletion comes from a list or from one inside it.
* `Fenced`: the invariant; `fenced_carried`, `prune_fenced`: other deletions stay away from the braces.
* `vacant_iff`: the test for a collapse.
* `exists_survivor`, `exists_pruned_survivor`: what stays of a block that does not collapse.
* `collapse_mem_iff`: the blocks that collapse. -/

namespace Polyfill

open Source Notice Text

namespace Prune

variable {j : Judge} {source : Text} {lo mid hi a z : ℕ} {l : StatementList} {ls ls' : List StatementList} {s : Stmt}
  {b : Span} {e : Edit}

/-- Between the braces of the list there is nothing but rename notices, stray semicolons and white space. -/
def Vacant (j : Judge) (source : Text) (ss : List Stmt) (b : Span) : Prop :=
  ∀ i, b.start ≤ i → i < b.stop →
    (∃ s ∈ ss, Goes j source s ∧ s.span.start ≤ i ∧ i < s.span.stop) ∨ BlankAt source i

/-- The deletion comes from the list, or from one inside a statement of it. -/
def ComesFrom (j : Judge) (source : Text) (l : StatementList) (e : Edit) : Prop :=
  ∃ l' ∈ l :: listsOf j.removes l.statements, e ∈ listEdits j source l'

/-- The deletions from the lists `ls`, and the braces of these lists, lie between the offsets `lo` and `hi`. A
deletion that does not come from a list with braces stays away from them. -/
structure Fenced (j : Judge) (source : Text) (lo hi : ℕ) (ls : List StatementList) : Prop where
  inside : ∀ l ∈ ls, ∀ e ∈ listEdits j source l, lo ≤ e.start ∧ e.stop ≤ hi
  braced : ∀ l ∈ ls, ∀ b ∈ l.braces, lo < b.start ∧ b.stop < hi
  fenced : ∀ l ∈ ls, ∀ b ∈ l.braces, ∀ l' ∈ ls, ∀ e ∈ listEdits j source l',
    e.stop < b.start ∨ b.stop < e.start ∨ ComesFrom j source l e

namespace Fenced

theorem nil : Fenced j source lo hi [] := ⟨by simp, by simp, by simp⟩

theorem mono {lo' hi' : ℕ} (h : Fenced j source lo hi ls) (hlo : lo' ≤ lo) (hhi : hi ≤ hi') :
    Fenced j source lo' hi' ls where
  inside l hl e he := ⟨hlo.trans (h.inside l hl e he).1, (h.inside l hl e he).2.trans hhi⟩
  braced l hl b hb := ⟨hlo.trans_lt (h.braced l hl b hb).1, (h.braced l hl b hb).2.trans_le hhi⟩
  fenced := h.fenced

theorem append (h : Fenced j source lo mid ls) (h' : Fenced j source mid hi ls') (hlo : lo ≤ mid)
    (hhi : mid ≤ hi) : Fenced j source lo hi (ls ++ ls') where
  inside l hl := (List.mem_append.mp hl).elim ((h.mono le_rfl hhi).inside l) ((h'.mono hlo le_rfl).inside l)
  braced l hl := (List.mem_append.mp hl).elim ((h.mono le_rfl hhi).braced l) ((h'.mono hlo le_rfl).braced l)
  fenced l hl b hb l' hl' e he := by
    rcases List.mem_append.mp hl with hl | hl
    · rcases List.mem_append.mp hl' with hl' | hl'
      · exact h.fenced l hl b hb l' hl' e he
      · exact Or.inr (Or.inl ((h.braced l hl b hb).2.trans_le (h'.inside l' hl' e he).1))
    · rcases List.mem_append.mp hl' with hl' | hl'
      · exact Or.inl ((h.inside l' hl' e he).2.trans_lt (h'.braced l hl b hb).1)
      · exact h'.fenced l hl b hb l' hl' e he

end Fenced

theorem listEdits_of_braces (hr : ∃ s ∈ l.statements, j.removes s = true) (hb : b ∈ l.braces) :
    listEdits j source l =
      if blankOutside source b.stop b.start (holes j source l.statements) then [.delete b.start b.stop]
      else (joinSpans source (holes j source l.statements)).map (deleteLines source) := by
  rw [Option.mem_def] at hb
  rw [listEdits, if_pos (List.any_eq_true.mpr hr)]
  simp only [hb]

section Laid

variable [SourceParser]

/-- **A list on top of the lists inside its statements.** What goes from the list itself is apart from the
statements that hold lists. -/
theorem list_fenced (hv : Encoded source) (hl : l.Laid source a z) (hlo : lo < a) (hhi : z < hi)
    (hs : ∀ s ∈ l.statements, Fenced j source s.span.start s.span.stop (s.lists j.removes))
    (hin : Fenced j source a z (listsOf j.removes l.statements)) :
    Fenced j source lo hi (l :: listsOf j.removes l.statements) := by
  have hd := listEdits_deletion (j := j) hv hl
  refine ⟨fun l' hl' e he => ?_, fun l' hl' b hb => ?_, fun l₁ hl₁ b hb l₂ hl₂ e he => ?_⟩
  · rcases List.mem_cons.mp hl' with rfl | hl'
    · exact ⟨hlo.le.trans (hd e he).lo_le, (hd e he).le_hi.trans hhi.le⟩
    · exact (hin.mono hlo.le hhi.le).inside l' hl' e he
  · rcases List.mem_cons.mp hl' with rfl | hl'
    · obtain ⟨rfl, -⟩ := hl.braces b hb
      exact ⟨hlo, hhi⟩
    · exact (hin.mono hlo.le hhi.le).braced l' hl' b hb
  · rcases List.mem_cons.mp hl₁ with rfl | hl₁
    · exact Or.inr (Or.inr ⟨l₂, hl₂, he⟩)
    · rcases List.mem_cons.mp hl₂ with rfl | hl₂
      · obtain ⟨s, hm, -, hls⟩ := mem_listsOf.mp hl₁
        have hw := (hs s hm).braced l₁ hls b hb
        rcases (hd e he).apart_compound hl hm (isCompound_of_mem_lists hls) with h | h
        · exact Or.inl (h.trans_lt hw.1)
        · exact Or.inr (Or.inl (hw.2.trans_le h))
      · exact hin.fenced l₁ hl₁ b hb l₂ hl₂ e he

theorem fenced_carried (hv : Encoded source) : Carried j source (Fenced j source) where
  nil := .nil
  mono := .mono
  append := .append
  list := list_fenced hv

/-! ### What stays of a block that does not collapse -/

/-- **The test for a collapse.** -/
theorem vacant_iff (hv : Encoded source) (hl : l.Laid source a z) (hb : b ∈ l.braces) :
    blankOutside source b.stop b.start (holes j source l.statements) = true ↔ Vacant j source l.statements b := by
  obtain ⟨rfl, hopens, hcloses, -⟩ := hl.braces b hb
  have hp := holes_placed (j := j) hl.statements
  have hle := hl.after.lt_length.le
  have hfilled : ∀ i, Filled source (holes j source l.statements) i ↔
      (∃ s ∈ l.statements, Goes j source s ∧ s.span.start ≤ i ∧ i < s.span.stop) ∨ BlankAt source i := by
    intro i
    refine or_congr_left ⟨?_, ?_⟩
    · rintro ⟨h, hh, hi⟩
      obtain ⟨s, hs, hg, rfl⟩ := mem_holes.mp hh
      exact ⟨s, hs, hg, hi⟩
    · rintro ⟨s, hs, hg, hi⟩
      exact ⟨s.span, mem_holes.mpr ⟨s, hs, hg, rfl⟩, hi⟩
  constructor
  · intro h i h₁ h₂
    refine (hfilled i).mp (blankOutside_filled hle (fun x hx => ?_) h h₁ h₂)
    exact ((hp x hx).lt.trans_le (hp x hx).le).le
  · intro h
    refine blankOutside_of_filled hv hcloses hle hopens hp (holes_ordered hl.statements) (fun x hx => ?_)
      fun i h₁ h₂ => (hfilled i).mpr (h i h₁ h₂)
    obtain ⟨s, hs, -, rfl⟩ := mem_holes.mp hx
    exact (hl.statements.bounds hs).2

theorem compound_end_stays (hv : Encoded source) (hl : l.Laid source a z) (hs : s ∈ l.statements) (hc : IsCompound s)
    (he : ComesFrom j source l e) : e.touches (s.span.stop - 1) = false := by
  have hlt := (hl.statements.placed hs).lt
  rw [Edit.touches_eq_false_iff]
  obtain ⟨l', hl', he⟩ := he
  rcases List.mem_cons.mp hl' with rfl | hl'
  · have := (listEdits_deletion hv hl e he).apart_compound hl hs hc
    omega
  · obtain ⟨x, hx, -, hlx⟩ := mem_listsOf.mp hl'
    obtain ⟨a', z', ha', hz', hlaid⟩ := lists_between_carried.stmt x (hl.statements.laid hx) l' hlx
    have hd := listEdits_deletion hv hlaid e he
    have h₁ := hd.lo_le
    have h₂ := hd.le_hi
    rcases hl.statements.eq_or_apart hs hx with rfl | h | h <;> omega

theorem compound_end_dark (hl : l.Laid source a z) (hs : s ∈ l.statements) (hc : IsCompound s) :
    Dark source (s.span.stop - 1) := by
  rcases hl.statements.sealed_or_isText hs with h | ⟨h, -⟩
  · exact h.last
  · cases s with
    | other => exact hc.elim
    | _ => exact h.elim

/-- **What stays of a block that does not collapse**: a byte that is no white space and that no deletion takes. -/
theorem exists_survivor (hv : Encoded source) (hl : l.Laid source a z) (hb : b ∈ l.braces)
    (hn : ¬ Vacant j source l.statements b) :
    ∃ i, b.start ≤ i ∧ i < b.stop ∧ ¬ BlankAt source i ∧ ∀ e, ComesFrom j source l e → e.touches i = false := by
  obtain ⟨rfl, -⟩ := hl.braces b hb
  by_cases hc : ∃ s ∈ l.statements, IsCompound s
  · obtain ⟨s, hs, hc⟩ := hc
    have hlt := (hl.statements.placed hs).lt
    have hbounds := hl.statements.bounds hs
    exact ⟨s.span.stop - 1, by simp only; omega, by simp only; omega, (compound_end_dark hl hs hc).not_blankAt,
      fun e he => compound_end_stays hv hl hs hc he⟩
  · -- No list lies further inside, so a byte that no hole holds stays.
    simp only [Vacant, not_forall, not_or] at hn
    obtain ⟨i, h₁, h₂, hhole, hblank⟩ := hn
    refine ⟨i, h₁, h₂, hblank, ?_⟩
    rintro e ⟨l', hl', he⟩
    rw [Edit.touches_eq_false_iff]
    rcases List.mem_cons.mp hl' with rfl | hl'
    · by_contra ht
      rcases (listEdits_deletion hv hl e he).filled i (by omega) (by omega) with ⟨h, hh, hi⟩ | hb
      · obtain ⟨s, hs, hg, rfl⟩ := mem_holes.mp hh
        exact hhole ⟨s, hs, hg, hi⟩
      · exact hblank hb
    · obtain ⟨s, hs, -, hls⟩ := mem_listsOf.mp hl'
      exact absurd ⟨s, hs, isCompound_of_mem_lists hls⟩ hc

/-! ### Collapsing lists -/

theorem listEdits_of_vacant (hv : Encoded source) (hl : l.Laid source a z)
    (hr : ∃ s ∈ l.statements, j.removes s = true) (hb : b ∈ l.braces) (h : Vacant j source l.statements b) :
    listEdits j source l = [.delete b.start b.stop] := by
  rw [listEdits_of_braces hr hb, if_pos ((vacant_iff hv hl hb).mpr h)]

/-- **A list without braces never collapses**: each deletion from it starts with a statement that goes, ends with
one, and takes their lines at most. -/
theorem listEdits_of_unbraced (hl : l.Laid source a z) (hb : l.braces = none) (he : e ∈ listEdits j source l) :
    ∃ s ∈ l.statements, ∃ s' ∈ l.statements, Goes j source s ∧ Goes j source s' ∧
      e = deleteLines source ⟨s.span.start, s'.span.stop⟩ := by
  rcases listEdits_cases j source l with ⟨-, hnil⟩ | ⟨-, ⟨b, hb', -⟩ | heq⟩
  · rw [hnil] at he
    cases he
  · rw [hb] at hb'
    cases hb'
  · rw [heq] at he
    obtain ⟨r, hr, rfl⟩ := List.mem_map.mp he
    have hj := joinSpans_joined (holes_placed hl.statements) (holes_ordered hl.statements) r hr
    obtain ⟨h, hh, hstart, -⟩ := hj.starts
    obtain ⟨h', hh', hstop⟩ := hj.stops
    obtain ⟨s, hs, hg, rfl⟩ := mem_holes.mp hh
    obtain ⟨s', hs', hg', rfl⟩ := mem_holes.mp hh'
    refine ⟨s, hs, s', hs', hg, hg', ?_⟩
    rw [← hstart, ← hstop]

theorem ComesFrom.inside (hv : Encoded source) (hl : l.Laid source a z) (h : ComesFrom j source l e) :
    a ≤ e.start ∧ e.start < e.stop ∧ e.stop ≤ z := by
  obtain ⟨l', hl', he⟩ := h
  rcases List.mem_cons.mp hl' with rfl | hl'
  · have hd := listEdits_deletion hv hl e he
    exact ⟨hd.lo_le, hd.fits.lt, hd.le_hi⟩
  · have hbetween := lists_between_carried.statements (j := j) _ hl.statements
    obtain ⟨a', z', ha', hz', hlaid⟩ := lists_between_carried.listsOf hl.statements hbetween l' hl'
    have hd := listEdits_deletion hv hlaid e he
    exact ⟨ha'.le.trans hd.lo_le, hd.fits.lt, hd.le_hi.trans hz'.le⟩

section File

variable {facade : Text} {p : Program} {n : ℕ} (hd : DeclaredIn source 0 n (declared p)) (hv : Encoded source)
include hd hv

/-- **A deletion of a file that does not come from a block stays away from its braces.** -/
theorem prune_fenced (hl : l ∈ visitedLists j.removes p) (hb : b ∈ l.braces)
    (he : e ∈ (prune facade j source p).edits) : e.stop < b.start ∨ b.stop < e.start ∨ ComesFrom j source l e := by
  obtain ⟨m, hm, hl⟩ := List.mem_flatMap.mp hl
  have hf := (fenced_carried (j := j) hv).block m (methodBodies_laid hd hm)
  have hw := hf.braced l hl b hb
  rcases prune_edit_cases hd hv hm he with ⟨l', hl', he⟩ | h | h
  · exact hf.fenced l hl b hb l' hl' e he
  · exact Or.inl (h.trans_lt hw.1)
  · exact Or.inr (Or.inl (hw.2.trans_le h))

theorem prune_spares_braces (hl : l ∈ visitedLists j.removes p) (hb : b ∈ l.braces)
    (he : e ∈ (prune facade j source p).edits) : e.touches (b.start - 1) = false ∧ e.touches b.stop = false := by
  obtain ⟨a, z, hlaid⟩ := visitedLists_laid hd hv hl
  obtain ⟨k, hk, -⟩ := hlaid.before
  have hle := hlaid.statements.le
  have hspan := (hlaid.braces b hb).1
  have hstart : b.start = a := by rw [hspan]
  have hstop : b.stop = z := by rw [hspan]
  simp only [Edit.touches_eq_false_iff]
  rcases prune_fenced hd hv hl hb he with h | h | h
  · omega
  · omega
  · have := h.inside hv hlaid
    omega

theorem eq_collapse_or_apart (hl : l ∈ visitedLists j.removes p) (hb : b ∈ l.braces)
    (hc : .delete b.start b.stop ∈ (prune facade j source p).edits) (he : e ∈ (prune facade j source p).edits) :
    e = .delete b.start b.stop ∨ e.stop < b.start ∨ b.stop < e.start := by
  obtain ⟨a, z, hlaid⟩ := visitedLists_laid hd hv hl
  obtain ⟨rfl, -⟩ := hlaid.braces b hb
  rcases prune_fenced hd hv hl hb he with h | h | h
  · exact Or.inr (Or.inl h)
  · exact Or.inr (Or.inr h)
  · left
    by_contra hne
    obtain ⟨h₁, h₂, h₃⟩ := h.inside hv hlaid
    rcases rel_or_rel_of_pairwise (prune_edits_apart hd hv) he hc hne with (h | h) | (h | h) <;>
      simp only [Edit.delete] at h <;> omega

/-- **What stays of a block that does not collapse is printed.** -/
theorem exists_pruned_survivor (hl : l ∈ visitedLists j.removes p) (hb : b ∈ l.braces)
    (hn : ¬ Vacant j source l.statements b) : ∃ i, b.start ≤ i ∧ i < b.stop ∧ ¬ BlankAt source i ∧
      ∀ e ∈ (prune facade j source p).edits, e.touches i = false := by
  obtain ⟨a, z, hlaid⟩ := visitedLists_laid hd hv hl
  obtain ⟨i, h₁, h₂, hblank, hi⟩ := exists_survivor hv hlaid hb hn
  refine ⟨i, h₁, h₂, hblank, fun e he => ?_⟩
  rcases prune_fenced hd hv hl hb he with h | h | h
  · exact Edit.touches_eq_false_iff.mpr (by omega)
  · exact Edit.touches_eq_false_iff.mpr (by omega)
  · exact hi e h

/-- A block whose list holds a rename notice collapses, and only one that holds nothing else. -/
theorem collapse_mem_iff (hl : l ∈ visitedLists j.removes p) (hr : ∃ s ∈ l.statements, j.removes s = true)
    (hb : b ∈ l.braces) :
    .delete b.start b.stop ∈ (prune facade j source p).edits ↔ Vacant j source l.statements b := by
  obtain ⟨a, z, hlaid⟩ := visitedLists_laid hd hv hl
  constructor
  · intro hc
    by_contra hn
    obtain ⟨i, h₁, h₂, -, hi⟩ := exists_pruned_survivor hd hv hl hb hn
    have := Edit.touches_eq_false_iff.mp (hi _ hc)
    simp only [Edit.delete] at this
    omega
  · intro h
    have heq := listEdits_of_vacant hv hlaid hr hb h
    exact List.mem_append_left _ (List.mem_flatMap.mpr ⟨l, hl, by rw [heq]; exact List.mem_singleton.mpr rfl⟩)

end File

end Laid

end Prune

end Polyfill
