import Polyfill.Proofs.Edit.Apply

/-! # The order of edits

Edits are arranged by start, then by stop, and edits of one range keep their order. That says what the arrangement is:
the order fixes which ranges come one after the other, and within a range the list itself says which edit comes first.
Two lists of the same edits therefore differ, when they are arranged, at most by the order of edits of one range. Edits
that are apart and have one range insert at one place, and so it is only the order of such insertions that counts.

* `Arranged`: an arrangement of a list of edits.
* `arranged_iff_eq_sort`: there is exactly one.
* `map_range_sort`: the ranges in order depend on the edits alone.
* `sort_eq_sort_of_perm`: and so do the edits, unless two insertions at one place differ. -/

namespace Polyfill.Edit

/-- The replaced range. -/
def range (e : Edit) : ℕ × ℕ := (e.start, e.stop)

/-- Ranges by start, then by stop. -/
def RangeLe (r r' : ℕ × ℕ) : Prop := r.1 < r'.1 ∨ r.1 = r'.1 ∧ r.2 ≤ r'.2

/-- **The edits by start and then by stop**, where edits of one range come as they do in the list. -/
structure Arranged (es sorted : List Edit) : Prop where
  perm : sorted.Perm es
  ordered : sorted.Pairwise fun a b => RangeLe a.range b.range
  stable : ∀ r, sorted.filter (·.range = r) = es.filter (·.range = r)

theorem range_eq_iff {a b : Edit} : a.range = b.range ↔ a.start = b.start ∧ a.stop = b.stop := Prod.mk_inj

/-! ### The arrangement is unique -/

theorem RangeLe.antisymm {r r' : ℕ × ℕ} (h : RangeLe r r') (h' : RangeLe r' r) : r = r' := by
  unfold RangeLe at h h'
  exact Prod.ext (by omega) (by omega)

theorem map_range_eq {es es' : List Edit} (hp : es.Perm es') (ho : es.Pairwise fun a b => RangeLe a.range b.range)
    (ho' : es'.Pairwise fun a b => RangeLe a.range b.range) : es.map range = es'.map range :=
  (hp.map range).eq_of_pairwise (fun _ _ _ _ => RangeLe.antisymm) (List.pairwise_map.mpr ho) (List.pairwise_map.mpr ho')

theorem eq_of_filter_range_eq : ∀ {es es' : List Edit}, es.map range = es'.map range →
    (∀ r, es.filter (·.range = r) = es'.filter (·.range = r)) → es = es'
  | [], [], _, _ => rfl
  | a :: es, b :: es', hr, hf => by
    obtain ⟨hab, hrest⟩ := List.cons_eq_cons.mp hr
    have hhead := hf a.range
    rw [List.filter_cons_of_pos (by simp), List.filter_cons_of_pos (by simp [hab])] at hhead
    obtain ⟨rfl, hsame⟩ := List.cons_eq_cons.mp hhead
    refine congrArg (a :: ·) (eq_of_filter_range_eq hrest fun r => ?_)
    by_cases h : a.range = r
    · exact h ▸ hsame
    · have hother := hf r
      rwa [List.filter_cons_of_neg (by simpa using h), List.filter_cons_of_neg (by simpa using h)] at hother

theorem Arranged.eq {es s s' : List Edit} (h : Arranged es s) (h' : Arranged es s') : s = s' :=
  eq_of_filter_range_eq (map_range_eq (h.perm.trans h'.perm.symm) h.ordered h'.ordered)
    fun r => (h.stable r).trans (h'.stable r).symm

/-! ### Sorting arranges -/

theorem filter_insertSorted (e : Edit) (r : ℕ × ℕ) : ∀ es : List Edit,
    (insertSorted e es).filter (·.range = r) = (e :: es).filter (·.range = r)
  | [] => rfl
  | x :: xs => by
    rw [insertSorted]
    split
    · rfl
    · next hle =>
      have hne : e.range ≠ x.range := fun h => hle (le_iff.mpr (by have := range_eq_iff.mp h; omega))
      rw [List.filter_cons, filter_insertSorted e r xs]
      -- only one of the two has the range
      by_cases he : e.range = r
      · rw [if_neg (by simpa [he] using hne.symm), List.filter_cons_of_pos (by simpa using he),
          List.filter_cons_of_pos (by simpa using he), List.filter_cons_of_neg (by simpa [he] using hne.symm)]
      · rw [List.filter_cons_of_neg (by simpa using he), List.filter_cons_of_neg (by simpa using he), List.filter_cons]

theorem arranged_sort (es : List Edit) : Arranged es (sort es) where
  perm := perm_sort es
  ordered := (ordered_sort es).imp le_iff.mp
  stable r := by
    induction es with
    | nil => rfl
    | cons e es ih => rw [sort, filter_insertSorted, List.filter_cons, List.filter_cons, ih]

/-- **There is exactly one arrangement of a list of edits.** -/
theorem arranged_iff_eq_sort {es sorted : List Edit} : Arranged es sorted ↔ sorted = sort es :=
  ⟨fun h => h.eq (arranged_sort es), fun h => h ▸ arranged_sort es⟩

/-! ### Lists of the same edits -/

theorem map_range_sort {es es' : List Edit} (hp : es.Perm es') : (sort es).map range = (sort es').map range :=
  map_range_eq ((perm_sort es).trans (hp.trans (perm_sort es').symm)) (arranged_sort es).ordered
    (arranged_sort es').ordered

/-- **No two insertions at one place differ.** -/
def NoRivals (es : List Edit) : Prop :=
  ∀ a ∈ es, ∀ b ∈ es, a.start = a.stop → a.range = b.range → a.replacement = b.replacement

instance : DecidablePred NoRivals := fun es => inferInstanceAs
  (Decidable (∀ a ∈ es, ∀ b ∈ es, a.start = a.stop → a.range = b.range → a.replacement = b.replacement))

/-- **The order of edits that are apart depends on the edits alone**, unless two insertions at one place differ. -/
theorem sort_eq_sort_of_perm {es es' : List Edit} (hp : es.Perm es') (ha : es.Pairwise Apart)
    (hle : ∀ e ∈ es, e.start ≤ e.stop) (hr : NoRivals es) : sort es = sort es' := by
  have hperm := (perm_sort es).trans (hp.trans (perm_sort es').symm)
  refine hperm.eq_of_pairwise ?_ (arranged_sort es).ordered (arranged_sort es').ordered
  intro a b hma hmb hab hba
  have ha' : a ∈ es := (perm_sort es).mem_iff.mp hma
  have hb' : b ∈ es := hp.mem_iff.mpr ((perm_sort es').mem_iff.mp hmb)
  have hrange : a.range = b.range := hab.antisymm hba
  by_contra hne
  -- two edits of one range that are apart replace nothing
  have hapart : Apart a b := ha.forall ha' hb' hne
  have hempty : a.start = a.stop := by
    have := hle a ha'
    have := range_eq_iff.mp hrange
    unfold Apart at hapart
    omega
  obtain ⟨hstart, hstop⟩ := range_eq_iff.mp hrange
  have hrepl := hr a ha' b hb' hempty hrange
  cases a
  cases b
  exact hne (by simp_all)

end Polyfill.Edit
