import Mathlib.Data.List.Infix
import Polyfill.Text.Search

/-! # Occurrences and the leftmost scan

The leftmost scan goes on behind each hit, so it passes over the occurrences that begin inside one. Such an occurrence
tells something about the needle: a part of the needle behind its first byte is also its beginning.

* `includes_iff`: what it means that a text is found in another.
* `after?_eq_some_iff`: what follows the first occurrence.
* `hit_or_inside`: an occurrence is a hit of the scan, or it begins inside one.
* `mem_occurrences_or_overlap`: the same, by what it says about the needle. -/

namespace Polyfill.Text

/-- **A text is found where it stands in the other without gaps.** -/
theorem includes_iff {needle : Text} : ∀ {t : Text}, includes needle t = true ↔ needle <:+: t
  | [] => by rw [includes, List.isEmpty_iff, List.infix_nil]
  | b :: t => by
    rw [includes, Bool.or_eq_true, List.isPrefixOf_iff_prefix, includes_iff, List.infix_cons_iff]

/-- **What follows the first occurrence**: no earlier offset is one of an occurrence. -/
theorem after?_eq_some_iff {needle r : Text} : ∀ {t : Text}, after? needle t = some r ↔
    ∃ before, t = before ++ (needle ++ r) ∧ ∀ k < before.length, ¬ needle <+: t.drop k
  | [] => by
    rw [after?]
    constructor
    · intro h
      split at h
      · next hn =>
        cases h
        exact ⟨[], by simpa using hn, by simp⟩
      · cases h
    · rintro ⟨before, ht, -⟩
      have hnil := List.append_eq_nil_iff.mp (List.append_eq_nil_iff.mp ht.symm).2
      rw [hnil.1, hnil.2]
      rfl
  | b :: t => by
    rw [after?]
    by_cases hp : needle <+: b :: t
    · rw [if_pos (List.isPrefixOf_iff_prefix.mpr hp), Option.some.injEq]
      constructor
      · rintro rfl
        exact ⟨[], (List.prefix_iff_eq_append.mp hp).symm, by simp⟩
      · rintro ⟨before, ht, hfirst⟩
        have hbefore : before = [] := by
          by_contra hne
          exact hfirst 0 (List.length_pos_iff.mpr hne) hp
        rw [ht, hbefore, List.nil_append, List.drop_left]
    · rw [if_neg (by rwa [List.isPrefixOf_iff_prefix]), after?_eq_some_iff]
      constructor
      · rintro ⟨before, rfl, hfirst⟩
        refine ⟨b :: before, rfl, fun k hk => ?_⟩
        cases k with
        | zero => exact hp
        | succ k => exact hfirst k (Nat.lt_of_succ_lt_succ hk)
      · rintro ⟨before, ht, hfirst⟩
        cases before with
        | nil => exact absurd ⟨r, ht.symm⟩ hp
        | cons c before =>
          exact ⟨before, (List.cons.inj ht).2, fun k hk => hfirst (k + 1) (Nat.succ_lt_succ hk)⟩

/-! ### Hits of the scan -/

/-- A hit is an occurrence, and none that begins in what the scan had to skip. -/
theorem occurrence_of_hit {needle : Text} : ∀ {t : Text} {pos skip i : ℕ}, i ∈ occurrencesFrom needle pos skip t →
    ∃ k, i = pos + k ∧ skip ≤ k ∧ needle <+: t.drop k
  | [], _, _, _, h => by simp [occurrencesFrom] at h
  | b :: t, pos, skip + 1, i, h => by
    rw [occurrencesFrom] at h
    obtain ⟨k, rfl, hk, hp⟩ := occurrence_of_hit h
    exact ⟨k + 1, by omega, by omega, hp⟩
  | b :: t, pos, 0, i, h => by
    rw [occurrencesFrom] at h
    split at h
    · next hp =>
      rcases List.mem_cons.mp h with rfl | h
      · exact ⟨0, rfl, le_rfl, List.isPrefixOf_iff_prefix.mp hp⟩
      · obtain ⟨k, rfl, -, hk⟩ := occurrence_of_hit h
        exact ⟨k + 1, by omega, by omega, hk⟩
    · obtain ⟨k, rfl, -, hk⟩ := occurrence_of_hit h
      exact ⟨k + 1, by omega, by omega, hk⟩

/-- The offset `k` behind `pos` is a hit, or lies inside one that begins in front of it. -/
def HitOrInside (needle : Text) (pos k : ℕ) (hits : List ℕ) : Prop :=
  pos + k ∈ hits ∨ ∃ m < k, k < m + needle.length ∧ pos + m ∈ hits

theorem HitOrInside.succ {needle : Text} {pos k : ℕ} {hits : List ℕ} (h : HitOrInside needle (pos + 1) k hits) :
    HitOrInside needle pos (k + 1) hits := by
  rcases h with h | ⟨m, hm, hlt, h⟩
  · exact Or.inl (by rwa [Nat.add_right_comm] at h)
  · exact Or.inr ⟨m + 1, by omega, by omega, by rwa [Nat.add_right_comm] at h⟩

theorem HitOrInside.mono {needle : Text} {pos k : ℕ} {hits hits' : List ℕ} (hsub : hits ⊆ hits')
    (h : HitOrInside needle pos k hits) : HitOrInside needle pos k hits' :=
  Or.imp (fun h => hsub h) (fun ⟨m, hm, hlt, h⟩ => ⟨m, hm, hlt, hsub h⟩) h

/-- **An occurrence is a hit of the scan, or it begins inside one**, unless it begins in what the scan had to skip. -/
theorem hit_or_inside {needle : Text} (hne : needle ≠ []) : ∀ {t : Text} {pos skip k : ℕ}, skip ≤ k →
    needle <+: t.drop k → HitOrInside needle pos k (occurrencesFrom needle pos skip t)
  | [], _, _, k, _, hp => by
    rw [List.drop_nil, List.prefix_nil] at hp
    exact absurd hp hne
  | b :: t, pos, skip + 1, k, hk, hp => by
    obtain ⟨k, rfl⟩ := Nat.exists_eq_succ_of_ne_zero (by omega : k ≠ 0)
    rw [occurrencesFrom]
    exact (hit_or_inside hne (Nat.le_of_succ_le_succ hk) hp).succ
  | b :: t, pos, 0, 0, _, hp => by
    rw [List.drop_zero, ← List.isPrefixOf_iff_prefix] at hp
    rw [occurrencesFrom, if_pos hp]
    exact Or.inl (List.mem_cons_self ..)
  | b :: t, pos, 0, k + 1, _, hp => by
    rw [occurrencesFrom]
    split
    · -- the scan has a hit here, and the occurrence begins inside it or behind it
      rcases Nat.lt_or_ge (k + 1) needle.length with hlt | hge
      · exact Or.inr ⟨0, by omega, by omega, List.mem_cons_self ..⟩
      · have hskip : needle.length - 1 ≤ k := by omega
        exact (hit_or_inside hne hskip hp).succ.mono (List.subset_cons_self ..)
    · exact (hit_or_inside hne (Nat.zero_le k) hp).succ

theorem prefix_drop_of_mem_occurrences {needle t : Text} {i : ℕ} (h : i ∈ occurrences needle t) :
    needle <+: t.drop i := by
  obtain ⟨k, rfl, -, hp⟩ := occurrence_of_hit h
  rwa [Nat.zero_add]

/-- **An occurrence is a hit, or the needle begins again inside the needle**: behind a part `u` that stands in front of
the occurrence. -/
theorem mem_occurrences_or_overlap {needle t : Text} (hne : needle ≠ []) {i : ℕ} (h : needle <+: t.drop i) :
    i ∈ occurrences needle t ∨
      ∃ u v, u ≠ [] ∧ v ≠ [] ∧ needle = u ++ v ∧ v <+: needle ∧ u <:+ t.take i := by
  have hfound : HitOrInside needle 0 i (occurrences needle t) := hit_or_inside hne (Nat.zero_le i) h
  rcases hfound with hit | ⟨m, hm, hlt, hit⟩
  · rw [Nat.zero_add] at hit
    exact Or.inl hit
  · rw [Nat.zero_add] at hit
    have hearlier : needle <+: t.drop m := prefix_drop_of_mem_occurrences hit
    obtain ⟨s, rfl⟩ := Nat.exists_eq_add_of_lt hm
    refine Or.inr ⟨needle.take (s + 1), needle.drop (s + 1), ?_, ?_, (List.take_append_drop ..).symm, ?_, ?_⟩
    · simpa using hne
    · rw [ne_eq, List.drop_eq_nil_iff]
      omega
    · -- the later occurrence and the rest of the earlier one stand at the same place
      have hrest : needle.drop (s + 1) <+: t.drop (m + s + 1) := by
        have := hearlier.drop (s + 1)
        rwa [List.drop_drop] at this
      refine List.prefix_of_prefix_length_le hrest h ?_
      rw [List.length_drop]
      omega
    · refine ⟨t.take m, ?_⟩
      have htake : needle.take (s + 1) = (t.drop m).take (s + 1) := by
        obtain ⟨rest, hrest⟩ := hearlier
        rw [← hrest, List.take_append_of_le_length (by omega)]
      rw [htake, ← List.take_add, ← Nat.add_assoc]

theorem eq_zero_or_le_of_mem_occurrences {needle t : Text} (hp : needle <+: t) {i : ℕ}
    (h : i ∈ occurrences needle t) : i = 0 ∨ needle.length ≤ i := by
  cases t with
  | nil => simp [occurrences, occurrencesFrom] at h
  | cons b t =>
    rw [occurrences, occurrencesFrom, if_pos (List.isPrefixOf_iff_prefix.mpr hp)] at h
    rcases List.mem_cons.mp h with rfl | h
    · exact Or.inl rfl
    · obtain ⟨k, rfl, hk, -⟩ := occurrence_of_hit h
      exact Or.inr (by omega)

end Polyfill.Text
