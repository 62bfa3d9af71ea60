import Mathlib.Data.List.Pairwise
import Mathlib.Data.List.Sort
import Polyfill.Edit.Basic

/-! # Applying edits that are apart

Edits that fit the text and have no byte in common are always applied, and the outcome can be read off byte
by byte, whatever the order they are given in.

* `Edit.Fits`: the edit can be made on its own; `Edit.Apart`: two edits have no byte in common.
* `edited`: the text in which every byte turns into what the edits make of it.
* `applyEdits_eq_ok`: that text is what applying the edits gives. -/

namespace Polyfill

namespace Edit

/-- The edit replaces bytes of the text and cuts no character. -/
structure Fits (source : Text) (e : Edit) : Prop where
  lt : e.start < e.stop
  le : e.stop ≤ source.length
  opens : source.isBoundary e.start = true
  closes : source.isBoundary e.stop = true

/-- The edits have no byte in common. -/
def Apart (a b : Edit) : Prop := a.stop ≤ b.start ∨ b.stop ≤ a.start

instance : DecidableRel Apart := fun a b => inferInstanceAs (Decidable (a.stop ≤ b.start ∨ b.stop ≤ a.start))

theorem Apart.symm {a b : Edit} (h : Apart a b) : Apart b a := Or.symm h

theorem Apart.within {s e : ℕ} {a b : Edit} (h : Apart (.delete s e) b) (hs : s ≤ a.start) (he : a.stop ≤ e) :
    Apart a b := h.imp he.trans fun h => h.trans hs

theorem touches_iff {e : Edit} {i : ℕ} : e.touches i = true ↔ e.start ≤ i ∧ i < e.stop := by
  simp [touches]

theorem touches_eq_false_iff {e : Edit} {i : ℕ} : e.touches i = false ↔ i < e.start ∨ e.stop ≤ i := by
  simp [touches]
  omega

/-- What the byte at the offset `i` turns into: nothing of it is left if an edit touches it, and the first
byte of the edit stands for the replacement. -/
def atByte (source : Text) (es : List Edit) (i : ℕ) : Text :=
  match es.find? (·.touches i) with
  | some e => if e.start = i then e.replacement else []
  | none => source[i]?.toList

end Edit

open Edit

/-- The text in which every byte has turned into what the edits make of it. -/
def edited (source : Text) (es : List Edit) : Text :=
  (List.range source.length).flatMap (atByte source es)

/-! ### The order of application -/

namespace Edit

theorem sort_eq_insertionSort : ∀ es : List Edit, sort es = es.insertionSort (le · ·)
  | [] => rfl
  | e :: es => by
    have : ∀ xs, insertSorted e xs = xs.orderedInsert (le · ·) e := by
      intro xs
      induction xs with
      | nil => rfl
      | cons x xs ih => rw [insertSorted, List.orderedInsert_cons, ih]
    rw [sort, this, sort_eq_insertionSort es, List.insertionSort_cons]

theorem le_iff {a b : Edit} : le a b = true ↔ a.start < b.start ∨ a.start = b.start ∧ a.stop ≤ b.stop := by
  simp [le]

instance : Std.Total fun a b : Edit => le a b = true where
  total a b := by
    simp only [le_iff]
    omega

instance : IsTrans Edit fun a b => le a b = true where
  trans a b c := by
    simp only [le_iff]
    omega

theorem perm_sort (es : List Edit) : (sort es).Perm es :=
  sort_eq_insertionSort es ▸ List.perm_insertionSort (le · ·) es

theorem ordered_sort (es : List Edit) : (sort es).Pairwise fun a b => le a b = true :=
  sort_eq_insertionSort es ▸ List.pairwise_insertionSort (le · ·) es

theorem pairwise_sort {es : List Edit} (hf : ∀ e ∈ es, e.start ≤ e.stop) (ha : es.Pairwise Apart) :
    (sort es).Pairwise fun a b => a.stop ≤ b.start := by
  have hp := perm_sort es
  have ha' := (hp.pairwise_iff Apart.symm).mpr ha
  refine ((ordered_sort es).and ha').imp_of_mem ?_
  rintro a b hma hmb ⟨hle, hap⟩
  have := hf a (hp.mem_iff.mp hma)
  have := hf b (hp.mem_iff.mp hmb)
  rw [le_iff] at hle
  rcases hap with h | h <;> omega

end Edit

/-! ### One pass from left to right -/

theorem take_drop_eq_flatMap (source : Text) : ∀ n a : ℕ,
    (source.drop a).take n = (List.range' a n).flatMap fun i => source[i]?.toList
  | 0, a => by simp
  | n + 1, a => by
    rw [List.range'_succ, List.flatMap_cons, ← take_drop_eq_flatMap source n (a + 1)]
    rcases Nat.lt_or_ge a source.length with h | h
    · rw [List.drop_eq_getElem_cons h, List.getElem?_eq_getElem h]
      rfl
    · simp [List.drop_eq_nil_of_le h, List.drop_eq_nil_of_le (Nat.le_succ_of_le h),
        List.getElem?_eq_none h]

theorem range'_split {a m z : ℕ} (ham : a ≤ m) (hmz : m ≤ z) :
    List.range' a (z - a) = List.range' a (m - a) ++ List.range' m (z - m) := by
  have h := List.range'_append_1 (s := a) (m := m - a) (n := z - m)
  rw [show a + (m - a) = m by omega, show m - a + (z - m) = z - a by omega] at h
  exact h.symm

/-- The text in which the bytes from `cursor` on have turned into what the edits make of them. -/
def editedFrom (source : Text) (es : List Edit) (cursor : ℕ) : Text :=
  (List.range' cursor (source.length - cursor)).flatMap (atByte source es)

namespace Edit

theorem flatMap_atByte_of_not_touched {source : Text} {es : List Edit} {a z : ℕ}
    (h : ∀ e ∈ es, ∀ i, a ≤ i → i < z → e.touches i = false) :
    (List.range' a (z - a)).flatMap (atByte source es) = source.slice a z := by
  rw [Text.slice, take_drop_eq_flatMap]
  refine List.flatMap_congr fun i hi => ?_
  rw [List.mem_range'_1] at hi
  have hn : es.find? (·.touches i) = none := by
    rw [List.find?_eq_none]
    intro e he
    rw [h e he i hi.1 (by omega)]
    decide
  rw [atByte, hn]

theorem flatMap_atByte_of_touched {source : Text} {es : List Edit} {e : Edit} (hlt : e.start < e.stop)
    (h : ∀ i, e.start ≤ i → i < e.stop → es.find? (·.touches i) = some e) :
    (List.range' e.start (e.stop - e.start)).flatMap (atByte source es) = e.replacement := by
  obtain ⟨n, hn⟩ : ∃ n, e.stop - e.start = n + 1 := ⟨e.stop - e.start - 1, by omega⟩
  rw [hn, List.range'_succ, List.flatMap_cons, atByte, h e.start le_rfl hlt]
  simp only [if_true]
  have hnil : (List.range' (e.start + 1) n).flatMap (atByte source es) = [] := by
    rw [List.flatMap_eq_nil_iff]
    intro i hi
    rw [List.mem_range'_1] at hi
    rw [atByte, h i (by omega) (by omega)]
    exact if_neg (by omega)
  rw [hnil, List.append_nil]

end Edit

/-- One pass over edits that come one after the other. -/
theorem applySorted_eq_ok {source : Text} : ∀ {es : List Edit} {cursor : ℕ},
    (∀ e ∈ es, e.Fits source) → es.Pairwise (fun a b => a.stop ≤ b.start) →
    (∀ e ∈ es, cursor ≤ e.start) → cursor ≤ source.length → source.isBoundary cursor = true →
    source.isBoundary source.length = true →
    applySorted source cursor es = .ok (editedFrom source es cursor)
  | [], cursor, _, _, _, hc, hb, hl => by
    have hs : source.slice? cursor source.length = some (source.slice cursor source.length) :=
      if_pos ⟨hc, hb, hl⟩
    rw [applySorted, hs, editedFrom, flatMap_atByte_of_not_touched (by simp)]
  | e :: es, cursor, hf, hp, hge, hc, hb, hl => by
    obtain ⟨hlt, hle, ho, hcl⟩ := hf e (by simp)
    obtain ⟨hhead, htail⟩ := List.pairwise_cons.mp hp
    have hce := hge e (by simp)
    have hs : source.slice? cursor e.start = some (source.slice cursor e.start) :=
      if_pos ⟨hce, hb, ho⟩
    have ih := applySorted_eq_ok (fun x hx => hf x (by simp [hx])) htail hhead hle hcl hl
    rw [applySorted, if_neg (by omega), hs, ih]
    -- The bytes from the cursor on are those in front of the edit, those of the edit, and the rest.
    have hsplit : List.range' cursor (source.length - cursor) =
        List.range' cursor (e.start - cursor) ++ (List.range' e.start (e.stop - e.start) ++
          List.range' e.stop (source.length - e.stop)) := by
      rw [← range'_split hlt.le hle, ← range'_split hce (hlt.le.trans hle)]
    have hrest : (List.range' e.stop (source.length - e.stop)).flatMap (atByte source (e :: es)) =
        editedFrom source es e.stop := by
      refine List.flatMap_congr fun i hi => ?_
      rw [List.mem_range'_1] at hi
      have : e.touches i = false := by simp [touches]; omega
      rw [atByte, atByte, List.find?_cons_of_neg (by rw [this]; decide)]
    have hall : editedFrom source (e :: es) cursor =
        source.slice cursor e.start ++ (e.replacement ++ editedFrom source es e.stop) := by
      rw [editedFrom, hsplit, List.flatMap_append, List.flatMap_append, hrest,
        flatMap_atByte_of_touched hlt, flatMap_atByte_of_not_touched]
      · intro x hx i _ hi
        rcases List.mem_cons.mp hx with rfl | hx
        · simp [touches]; omega
        · have := hhead x hx
          simp [touches]; omega
      · intro i hi hi'
        exact List.find?_cons_of_pos (touches_iff.mpr ⟨hi, hi'⟩)
    simp only [Except.map, hall, List.append_assoc]

namespace Edit

instance : Std.Symm Apart where
  symm _ _ := Apart.symm

theorem find?_touches {es : List Edit} {e : Edit} {i : ℕ} (ha : es.Pairwise Apart) (he : e ∈ es)
    (ht : e.touches i = true) : es.find? (·.touches i) = some e := by
  cases hf : es.find? (·.touches i) with
  | none => exact absurd ht (List.find?_eq_none.mp hf e he)
  | some x =>
    have hxt : x.touches i = true := by simpa using List.find?_some hf
    rw [touches_iff] at ht hxt
    by_contra hne
    have hap : Apart e x := ha.forall he (List.mem_of_find?_eq_some hf) fun h => hne (h ▸ rfl)
    rcases hap with h | h <;> omega

theorem atByte_of_touches {source : Text} {es : List Edit} {e : Edit} {i : ℕ} (ha : es.Pairwise Apart)
    (he : e ∈ es) (ht : e.touches i = true) :
    atByte source es i = if e.start = i then e.replacement else [] := by
  rw [atByte, find?_touches ha he ht]

theorem atByte_of_not_touched {source : Text} {es : List Edit} {i : ℕ}
    (h : ∀ e ∈ es, ¬ e.touches i = true) : atByte source es i = source[i]?.toList := by
  rw [atByte, List.find?_eq_none.mpr h]

theorem atByte_perm {source : Text} {es es' : List Edit} (hp : es'.Perm es) (ha : es.Pairwise Apart)
    (i : ℕ) : atByte source es' i = atByte source es i := by
  have ha' := (hp.pairwise_iff Apart.symm).mpr ha
  by_cases h : ∃ e ∈ es, e.touches i = true
  · obtain ⟨e, he, ht⟩ := h
    rw [atByte_of_touches ha he ht, atByte_of_touches ha' (hp.mem_iff.mpr he) ht]
  · push Not at h
    rw [atByte_of_not_touched h, atByte_of_not_touched fun e he => h e (hp.mem_iff.mp he)]

end Edit

/-- The bytes from `a` to `z` stand in the edited text as they are, between what the edits make of the bytes in
front of them and of those behind them. -/
def Survives (source : Text) (es : List Edit) (a z : ℕ) : Prop :=
  edited source es = (List.range a).flatMap (atByte source es) ++ (source.slice a z ++
    (List.range' z (source.length - z)).flatMap (atByte source es))

theorem survives_of_not_touched {source : Text} {es : List Edit} {a z : ℕ} (haz : a ≤ z) (hz : z ≤ source.length)
    (h : ∀ e ∈ es, ∀ i, a ≤ i → i < z → e.touches i = false) : Survives source es a z := by
  have hsplit : List.range source.length =
      List.range a ++ (List.range' a (z - a) ++ List.range' z (source.length - z)) := by
    rw [← range'_split haz hz, List.range_eq_range', List.range_eq_range']
    exact range'_split (Nat.zero_le a) (haz.trans hz)
  rw [Survives, edited, hsplit, List.flatMap_append, List.flatMap_append, flatMap_atByte_of_not_touched h]

/-- **Edits that fit and are apart are applied**, and every byte turns into what they make of it. -/
theorem applyEdits_eq_ok {source : Text} {es : List Edit} (hv : source.isBoundary 0 = true)
    (hf : ∀ e ∈ es, e.Fits source) (ha : es.Pairwise Apart) :
    applyEdits source es = .ok (edited source es) := by
  have hp : (Edit.sort es).Perm es := perm_sort es
  have hl : source.isBoundary source.length = true := by simp [Text.isBoundary]
  have hs : (Edit.sort es).Pairwise fun a b => a.stop ≤ b.start := pairwise_sort (fun e he => (hf e he).lt.le) ha
  rw [applyEdits, applySorted_eq_ok (fun e he => hf e (hp.mem_iff.mp he)) hs
    (fun _ _ => Nat.zero_le _) (Nat.zero_le _) hv hl, editedFrom, edited, List.range_eq_range']
  exact congrArg Except.ok (List.flatMap_congr fun i _ => atByte_perm hp ha i)

end Polyfill
