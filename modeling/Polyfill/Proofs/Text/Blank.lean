import Mathlib.Data.List.TakeWhile
import Polyfill.Proofs.Text.Encoding
import Polyfill.Source.Lexeme
import Polyfill.Text.Blank

/-! # Blank text

A blank text is a row of white-space characters, and trimming takes such rows off both ends. Among the
white-space characters the ASCII ones are those that the code skips.

* `Text.exists_trim`: what trimming leaves, and what it takes off.
* `Text.BlankAt`: a byte belongs to a white-space character; `isBlank_slice_iff`: a part of a text is blank if all
  its bytes do.
* `Text.Ink`: a byte is not skipped by the code; `Text.Dark`: it is moreover an ASCII byte, and so no part of
  a white-space character. -/

namespace Polyfill

open Source

/-! ### The table of white-space characters -/

theorem blanks_spec : ∀ u ∈ blanks, u ≠ [] ∧ (∀ b ∈ u, b < 0x80 → isCodeBlank b = true) ∧
    ∀ b ∈ u.tail, 0x80 ≤ b ∧ b < 0xC0 := by
  decide +kernel

theorem singleton_mem_blanks : ∀ {b : UInt8}, isCodeBlank b = true → [b] ∈ blanks := by
  refine fun {b} => Text.forall_byte (P := fun b => isCodeBlank b = true → [b] ∈ blanks) ?_ b
  decide +kernel

theorem encoded_of_mem_blanks {u : Text} (hu : u ∈ blanks) : Text.Encoded u := by
  obtain ⟨c, -, rfl⟩ := List.mem_map.mp hu
  exact Text.isValid_iff.mp (Text.isValid_ofString _)

/-! ### Taking off units -/

/-- The text is a row of the given units. -/
def IsRow (units : List Text) (t : Text) : Prop := ∃ us : List Text, (∀ u ∈ us, u ∈ units) ∧ t = us.flatten

theorem IsRow.nil (units : List Text) : IsRow units [] := ⟨[], by simp, rfl⟩

theorem IsRow.append {units : List Text} {t u : Text} : IsRow units t → IsRow units u →
    IsRow units (t ++ u) := by
  rintro ⟨us, hus, rfl⟩ ⟨vs, hvs, rfl⟩
  refine ⟨us ++ vs, fun u hu => ?_, List.flatten_append.symm⟩
  rcases List.mem_append.mp hu with hu | hu
  · exact hus u hu
  · exact hvs u hu

theorem dropUnits_skip (units : List Text) : ∀ (skip : ℕ) (t : Text),
    dropUnits units skip t = dropUnits units 0 (t.drop skip)
  | 0, t => rfl
  | skip + 1, [] => by simp [dropUnits]
  | skip + 1, b :: t => by rw [dropUnits, dropUnits_skip units skip t, List.drop_succ_cons]

theorem leadingUnit_eq_succ {units : List Text} {t : Text} {n : ℕ} (h : leadingUnit units t = n + 1) :
    ∃ u ∈ units, u <+: t ∧ u.length = n + 1 := by
  unfold leadingUnit at h
  cases hf : units.find? (·.isPrefixOf t) with
  | none => rw [hf] at h; simp at h
  | some u =>
    rw [hf] at h
    have hp : u.isPrefixOf t = true := by simpa using List.find?_some hf
    exact ⟨u, List.mem_of_find?_eq_some hf, List.isPrefixOf_iff_prefix.mp hp, h⟩

theorem leadingUnit_ne_zero {units : List Text} {u t : Text} (hs : ∀ v ∈ units, v ≠ []) (hu : u ∈ units)
    (hp : u <+: t) : leadingUnit units t ≠ 0 := by
  unfold leadingUnit
  cases hf : units.find? (·.isPrefixOf t) with
  | none =>
    have := List.find?_eq_none.mp hf u hu
    exact absurd (List.isPrefixOf_iff_prefix.mpr hp) this
  | some v =>
    have := hs v (List.mem_of_find?_eq_some hf)
    simpa using this

/-- What is taken off is a row of units. -/
theorem exists_dropUnits (units : List Text) : ∀ t : Text,
    ∃ row, IsRow units row ∧ t = row ++ dropUnits units 0 t
  | [] => ⟨[], .nil units, rfl⟩
  | b :: t => by
    rw [dropUnits]
    split
    · exact ⟨[], .nil units, rfl⟩
    · next n hn =>
      obtain ⟨u, hu, ⟨r, hr⟩, hlen⟩ := leadingUnit_eq_succ hn
      have hd : t.drop n = r := by
        have := congrArg (List.drop (n + 1)) hr
        rwa [← hlen, List.drop_left, hlen, List.drop_succ_cons, eq_comm] at this
      obtain ⟨row, hrow, he⟩ := exists_dropUnits units (t.drop n)
      refine ⟨u ++ row, .append ⟨[u], by simpa using hu, by simp⟩ hrow, ?_⟩
      rw [dropUnits_skip, List.append_assoc, ← he, hd, hr]
  termination_by t => t.length
  decreasing_by simp only [List.length_drop, List.length_cons]; omega

/-! ### Rows at the start -/

theorem eq_of_prefix_of_mem_blanks : ∀ u ∈ blanks, ∀ v ∈ blanks, u <+: v → u = v := by decide +kernel

theorem IsRow.not_mem {row : Text} (h : IsRow blanks row) {b : UInt8} (hlt : b < 0x80)
    (hc : isCodeBlank b = false) : b ∉ row := by
  obtain ⟨us, hus, rfl⟩ := h
  rw [List.mem_flatten]
  rintro ⟨u, hu, hb⟩
  rw [(blanks_spec u (hus u hu)).2.1 b hb hlt] at hc
  cases hc

theorem leadingUnit_append {u : Text} (hu : u ∈ blanks) (t : Text) : leadingUnit blanks (u ++ t) = u.length := by
  have hp : u <+: u ++ t := List.prefix_append u t
  obtain ⟨n, hn⟩ := Nat.exists_eq_succ_of_ne_zero (leadingUnit_ne_zero (fun v hv => (blanks_spec v hv).1) hu hp)
  obtain ⟨v, hv, hvp, hlen⟩ := leadingUnit_eq_succ hn
  have huv : u = v := by
    rcases List.prefix_or_prefix_of_prefix hp hvp with h | h
    · exact eq_of_prefix_of_mem_blanks u hu v hv h
    · exact (eq_of_prefix_of_mem_blanks v hv u hu h).symm
  rw [hn, huv, hlen]

theorem dropUnits_append {u : Text} (hu : u ∈ blanks) (t : Text) :
    dropUnits blanks 0 (u ++ t) = dropUnits blanks 0 t := by
  have hunit := leadingUnit_append hu t
  obtain ⟨b, u, rfl⟩ := List.exists_cons_of_ne_nil (blanks_spec u hu).1
  rw [List.cons_append] at hunit ⊢
  rw [dropUnits, hunit, List.length_cons]
  dsimp only
  rw [dropUnits_skip, List.drop_left]

theorem leadingUnit_dropUnits (skip : ℕ) (t : Text) : leadingUnit blanks (dropUnits blanks skip t) = 0 := by
  fun_induction dropUnits blanks skip t with
  | case1 => rfl
  | case2 _ _ _ ih => exact ih
  | case3 _ _ h => exact h
  | case4 _ _ _ _ ih => exact ih

namespace Text

theorem trimStart_append {row : Text} (h : IsRow blanks row) (t : Text) : (row ++ t).trimStart = t.trimStart := by
  obtain ⟨us, hus, rfl⟩ := h
  induction us with
  | nil => rfl
  | cons u us ih =>
    rw [List.flatten_cons, List.append_assoc, trimStart, dropUnits_append (hus u (by simp))]
    exact ih fun v hv => hus v (by simp [hv])

theorem trimStart_trimStart (t : Text) : t.trimStart.trimStart = t.trimStart := by
  have h : leadingUnit blanks t.trimStart = 0 := leadingUnit_dropUnits 0 t
  generalize t.trimStart = s at h
  cases s with
  | nil => rfl
  | cons b s => rw [trimStart, dropUnits, h]

/-- **Trimming takes rows of white-space characters off both ends.** -/
theorem exists_trim (t : Text) : ∃ us vs, IsRow blanks us ∧ IsRow blanks vs ∧ t = us ++ (t.trim ++ vs) := by
  obtain ⟨us, hus, ht⟩ := exists_dropUnits blanks t
  obtain ⟨row, ⟨rs, hrs, rfl⟩, hr⟩ := exists_dropUnits blanksReversed t.trimStart.reverse
  refine ⟨us, (rs.map List.reverse).reverse.flatten, hus, ⟨_, fun v hv => ?_, rfl⟩, ?_⟩
  · rw [List.mem_reverse, List.mem_map] at hv
    obtain ⟨r, hr', rfl⟩ := hv
    obtain ⟨u, hu, rfl⟩ := List.mem_map.mp (hrs r hr')
    rwa [List.reverse_reverse]
  · have hs : t.trimStart = t.trim ++ (rs.map List.reverse).reverse.flatten := by
      have := congrArg List.reverse hr
      rwa [List.reverse_reverse, List.reverse_append, List.reverse_flatten] at this
    rw [← hs]
    exact ht

theorem length_dropUnits_le (units : List Text) (skip : ℕ) (t : Text) :
    (dropUnits units skip t).length ≤ t.length := by
  obtain ⟨row, -, he⟩ := exists_dropUnits units (t.drop skip)
  have hlen := congrArg List.length he
  rw [List.length_append, List.length_drop] at hlen
  rw [dropUnits_skip]
  omega

/-- A text that trimming leaves as it is does not start with a white-space character. -/
theorem not_prefix_of_trim_eq_self {t u : Text} (h : t.trim = t) (hu : u ∈ blanks) : ¬ u <+: t := by
  intro hp
  have hunit : leadingUnit blanks t ≠ 0 := leadingUnit_ne_zero (fun v hv => (blanks_spec v hv).1) hu hp
  have hend : t.trim.length ≤ t.trimStart.length := by
    have := length_dropUnits_le blanksReversed 0 t.trimStart.reverse
    rwa [List.length_reverse, ← List.length_reverse] at this
  have hstart : t.trimStart.length < t.length := by
    cases t with
    | nil => exact absurd (List.prefix_nil.mp hp) (blanks_spec u hu).1
    | cons b t =>
      obtain ⟨n, hn⟩ := Nat.exists_eq_succ_of_ne_zero hunit
      have := length_dropUnits_le blanks n t
      rw [trimStart, dropUnits, hn, List.length_cons]
      exact Nat.lt_succ_of_le this
  rw [h] at hend
  omega

/-! ### Bytes of a text -/

theorem getElem?_slice (t : Text) (a z i : ℕ) :
    (t.slice a z)[i]? = if i < z - a then t[a + i]? else none := by
  unfold slice
  split_ifs with h
  · rw [List.getElem?_take_of_lt h, List.getElem?_drop]
  · exact List.getElem?_take_eq_none (Nat.le_of_not_lt h)

/-- The byte at the offset `i` belongs to a white-space character. -/
def BlankAt (t : Text) (i : ℕ) : Prop := ∃ k, ∃ u ∈ blanks, u <+: t.drop k ∧ k ≤ i ∧ i < k + u.length

/-- The byte at the offset `i` is none of those the code skips. -/
def Ink (t : Text) (i : ℕ) : Prop := ∃ b, t[i]? = some b ∧ isCodeBlank b = false

/-- The byte at the offset `i` is an ASCII byte and none of those the code skips. -/
def Dark (t : Text) (i : ℕ) : Prop := ∃ b, t[i]? = some b ∧ isCodeBlank b = false ∧ b < 0x80

theorem Dark.ink {t : Text} {i : ℕ} : Dark t i → Ink t i := fun ⟨b, hb, hc, _⟩ => ⟨b, hb, hc⟩

theorem Ink.lt_length {t : Text} {i : ℕ} : Ink t i → i < t.length :=
  fun ⟨_, hb, _⟩ => (List.getElem?_eq_some_iff.mp hb).1

theorem BlankAt.of_isCodeBlank {t : Text} {i : ℕ} {b : UInt8} (hb : t[i]? = some b)
    (h : isCodeBlank b = true) : BlankAt t i := by
  obtain ⟨hi, rfl⟩ := List.getElem?_eq_some_iff.mp hb
  refine ⟨i, [t[i]], singleton_mem_blanks h, ⟨t.drop (i + 1), ?_⟩, le_rfl, by simp⟩
  rw [List.drop_eq_getElem_cons hi]
  rfl

theorem getElem?_of_isPrefix {t u : Text} {k i : ℕ} (hp : u <+: t.drop k) (hk : k ≤ i)
    (hi : i < k + u.length) : t[i]? = u[i - k]? := by
  obtain ⟨r, hr⟩ := hp
  rw [show i = k + (i - k) by omega, ← List.getElem?_drop, ← hr,
    List.getElem?_append_left (by omega), Nat.add_sub_cancel_left]

theorem Dark.not_blankAt {t : Text} {i : ℕ} : Dark t i → ¬ BlankAt t i := by
  rintro ⟨b, hb, hc, hlt⟩ ⟨k, u, hu, hp, hk, hi⟩
  rw [getElem?_of_isPrefix hp hk hi] at hb
  have := (blanks_spec u hu).2.1 b (List.mem_of_getElem? hb) hlt
  rw [hc] at this
  cases this

theorem blankAt_of_isRow {t row : Text} {k i : ℕ} (h : IsRow blanks row) (hp : row <+: t.drop k)
    (hk : k ≤ i) (hi : i < k + row.length) : BlankAt t i := by
  obtain ⟨us, hus, rfl⟩ := h
  induction us generalizing k with
  | nil => simp at hi; omega
  | cons u us ih =>
    rw [List.flatten_cons] at hp hi
    rcases Nat.lt_or_ge i (k + u.length) with hu | hu
    · exact ⟨k, u, hus u (by simp), (List.prefix_append u _).trans hp, hk, hu⟩
    · refine ih hu (fun v hv => hus v (by simp [hv])) ?_ ?_
      · obtain ⟨r, hr⟩ := hp
        refine ⟨r, ?_⟩
        rw [← List.drop_drop, ← hr, List.append_assoc, List.drop_left]
      · rw [List.length_append] at hi
        omega

theorem slice_prefix (t : Text) (a z : ℕ) : t.slice a z <+: t.drop a := List.take_prefix _ _

theorem slice?_eq_some_iff {t u : Text} {a z : ℕ} :
    t.slice? a z = some u ↔ (a ≤ z ∧ t.isBoundary a = true ∧ t.isBoundary z = true) ∧ t.slice a z = u := by
  rw [slice?]
  split
  · next h => simp [h]
  · next h => simp [h]

theorem slice?_of_isBoundary {t : Text} {a z : ℕ} (haz : a ≤ z) (ha : t.isBoundary a = true)
    (hz : t.isBoundary z = true) : t.slice? a z = some (t.slice a z) := slice?_eq_some_iff.mpr ⟨⟨haz, ha, hz⟩, rfl⟩

theorem slice_append_slice (t : Text) {a m z : ℕ} (ham : a ≤ m) (hmz : m ≤ z) :
    t.slice a m ++ t.slice m z = t.slice a z := by
  rw [slice, slice, slice, show z - a = (m - a) + (z - m) by omega, List.take_add, List.drop_drop,
    Nat.add_sub_cancel' ham]

/-- The bytes of a slice that belong to what trimming takes off belong to white-space characters. -/
theorem blankAt_or_of_trim {t : Text} {a z i : ℕ} (ha : a ≤ i) (hz : i < z) (hl : z ≤ t.length) :
    BlankAt t i ∨ ∃ j < (t.slice a z).trim.length, t[i]? = (t.slice a z).trim[j]? := by
  obtain ⟨us, vs, hus, hvs, he⟩ := exists_trim (t.slice a z)
  have hlen : (t.slice a z).length = z - a := by simp [slice]; omega
  have hp := slice_prefix t a z
  rw [he] at hp hlen
  simp only [List.length_append] at hlen
  rcases Nat.lt_or_ge i (a + us.length) with h1 | h1
  · exact Or.inl (blankAt_of_isRow hus ((List.prefix_append us _).trans hp) ha h1)
  · obtain ⟨r, hr⟩ := hp
    rcases Nat.lt_or_ge i (a + us.length + (t.slice a z).trim.length) with h2 | h2
    · refine Or.inr ⟨i - (a + us.length), by omega, ?_⟩
      refine getElem?_of_isPrefix ⟨vs ++ r, ?_⟩ h1 h2
      rw [← List.drop_drop, ← hr]
      simp
    · refine Or.inl (blankAt_of_isRow hvs ⟨r, ?_⟩ h2 (by omega))
      rw [← List.drop_drop, ← List.drop_drop, ← hr]
      simp

theorem blankAt_of_isBlank {t : Text} {a z : ℕ} (h : (t.slice a z).isBlank = true) (hl : z ≤ t.length)
    {i : ℕ} (ha : a ≤ i) (hz : i < z) : BlankAt t i := by
  rw [isBlank, List.isEmpty_iff] at h
  rcases blankAt_or_of_trim ha hz hl with hb | ⟨j, hj, -⟩
  · exact hb
  · rw [h] at hj
    simp at hj

/-- A white-space character that starts in front of a character boundary ends there or in front of it. -/
theorem le_of_isBoundary {t u : Text} {k m : ℕ} (hu : u ∈ blanks) (hp : u <+: t.drop k)
    (hm : t.isBoundary m = true) (hk : k < m) : k + u.length ≤ m := by
  by_contra hc
  have hget := getElem?_of_isPrefix hp hk.le (by omega)
  obtain ⟨d, rfl⟩ := Nat.exists_eq_add_of_lt hk
  obtain ⟨-, -, htail⟩ := blanks_spec u hu
  cases u with
  | nil => simp only [List.length_nil] at hc; omega
  | cons b u =>
    -- The boundary would lie in front of a byte that continues a character.
    have hd : d < u.length := by rw [List.length_cons] at hc; omega
    rw [show k + d + 1 - k = d + 1 by omega, List.getElem?_cons_succ, List.getElem?_eq_getElem hd] at hget
    have hbounds := htail _ (List.getElem_mem hd)
    rcases not_continuation_of_isBoundary hm hget with h | h
    · exact absurd h (UInt8.not_lt.mpr hbounds.1)
    · exact absurd h (UInt8.not_le.mpr hbounds.2)

/-- Between character boundaries, bytes of white-space characters are a row of them. -/
theorem isRow_slice {t : Text} (hv : Encoded t) {z : ℕ} (hz : t.isBoundary z = true) (hl : z ≤ t.length) (a : ℕ)
    (ha : t.isBoundary a = true) (h : ∀ i, a ≤ i → i < z → BlankAt t i) : IsRow blanks (t.slice a z) := by
  rcases Nat.lt_or_ge a z with haz | haz
  · obtain ⟨k, u, hu, hp, hka, hau⟩ := h a le_rfl haz
    obtain rfl : k = a := by
      by_contra hne
      have := le_of_isBoundary hu hp ha (by omega)
      omega
    have hle := le_of_isBoundary hu hp hz haz
    have hrest := isRow_slice hv hz hl (k + u.length)
      (hv.isBoundary_add ha (by omega) (encoded_of_mem_blanks hu) hp) fun i hi => h i (by omega)
    have hsplit : t.slice k z = u ++ t.slice (k + u.length) z := by
      obtain ⟨r, hr⟩ := hp
      rw [slice, slice, ← List.drop_drop, ← hr, List.drop_left, show z - k = u.length + (z - (k + u.length)) by omega,
        List.take_length_add_append]
    rw [hsplit]
    exact .append ⟨[u], by simpa using hu, by simp⟩ hrest
  · rw [slice, Nat.sub_eq_zero_of_le haz, List.take_zero]
    exact .nil blanks
  termination_by z - a
  decreasing_by omega

theorem isBlank_of_isRow {t : Text} (h : IsRow blanks t) : t.isBlank = true := by
  have hs := trimStart_append h []
  rw [List.append_nil] at hs
  rw [isBlank, trim, hs]
  rfl

/-- **A slice between character boundaries is blank if its bytes belong to white-space characters.** -/
theorem isBlank_slice_iff {t : Text} (hv : Encoded t) {a z : ℕ} (ha : t.isBoundary a = true)
    (hz : t.isBoundary z = true) (hl : z ≤ t.length) :
    (t.slice a z).isBlank = true ↔ ∀ i, a ≤ i → i < z → BlankAt t i :=
  ⟨fun h _ => blankAt_of_isBlank h hl, fun h => isBlank_of_isRow (isRow_slice hv hz hl a ha h)⟩

theorem dropUnits_eq_nil_of_codeBlank : ∀ t : Text, (∀ b ∈ t, isCodeBlank b = true) →
    dropUnits blanks 0 t = []
  | [], _ => rfl
  | b :: t, h => by
    rw [dropUnits]
    split
    · next hn =>
      refine absurd hn (leadingUnit_ne_zero (fun v hv => (blanks_spec v hv).1)
        (singleton_mem_blanks (h b (by simp))) ⟨t, rfl⟩)
    · next n hn =>
      rw [dropUnits_skip]
      exact dropUnits_eq_nil_of_codeBlank (t.drop n) fun x hx => h x (by simp [List.mem_of_mem_drop hx])
  termination_by t => t.length
  decreasing_by simp only [List.length_drop, List.length_cons]; omega

theorem exists_ink_of_not_isBlank {t : Text} {a z : ℕ} (h : ¬ (t.slice a z).isBlank = true) :
    ∃ k, a ≤ k ∧ k < z ∧ Ink t k := by
  by_contra hc
  refine h ?_
  have hs : (t.slice a z).trimStart = [] := by
    refine dropUnits_eq_nil_of_codeBlank _ fun b hb => ?_
    obtain ⟨j, hj⟩ := List.mem_iff_getElem?.mp hb
    rw [getElem?_slice] at hj
    split_ifs at hj with hlt
    by_contra hn
    exact hc ⟨a + j, by omega, by omega, b, hj, by simpa using hn⟩
  rw [isBlank, trim, hs]
  rfl

end Text

end Polyfill
