import Mathlib.Data.List.TakeWhile
import Mathlib.Data.UInt
import Polyfill.Text.Basic

/-! # Cutting a text between characters

A valid text is a row of encoded characters. The encoding of a character is one ASCII byte, or a byte from
`0xC0` on with continuation bytes behind it, so an ASCII byte always stands for itself: a text can be cut
in front of one and behind one.

* `Text.Encoded`: the text encodes characters.
* `Text.Cuts`: cutting the text at an offset leaves two encoded texts.
* `Text.cuts_at`, `Text.cuts_behind`: where the bytes allow a cut.
* `Text.Cuts.isBoundary`, `Text.Cuts.of_isBoundary`: cuts are the character boundaries. -/

namespace Polyfill.Text

theorem forall_byte {P : UInt8 → Prop} (h : ∀ n : Fin 256, P (UInt8.ofFin n)) : ∀ b, P b :=
  fun b => h b.toFin

/-- The text is the encoding of characters. -/
def Encoded (t : Text) : Prop := ∃ cs : List Char, t = cs.flatMap String.utf8EncodeChar

theorem isValid_iff {t : Text} : t.isValid = true ↔ Encoded t := by
  unfold isValid decode? String.fromUTF8? Encoded
  constructor
  · intro h
    split at h
    · next hv =>
      obtain ⟨cs, hcs⟩ := hv
      refine ⟨cs, ?_⟩
      have := congrArg (fun b : ByteArray => b.data.toList) hcs
      simpa [List.utf8Encode, List.data_toByteArray] using this
    · simp at h
  · rintro ⟨cs, rfl⟩
    have hv : ByteArray.IsValidUTF8 ⟨(cs.flatMap String.utf8EncodeChar).toArray⟩ := by
      refine ⟨cs, ?_⟩
      rw [List.utf8Encode]
      exact ByteArray.ext (by rw [List.data_toByteArray])
    rw [dif_pos hv]
    rfl

theorem isValid_ofString (s : String) : (ofString s).isValid = true := by
  refine isValid_iff.mpr ⟨s.toList, ?_⟩
  rw [ofString, String.toUTF8, ← String.utf8Encode_toList, List.utf8Encode, List.data_toByteArray]

theorem continuation_bounds (n : ℕ) :
    (0x80 : UInt8) ≤ UInt8.ofNat (n % 0x40 + 0x80) ∧ UInt8.ofNat (n % 0x40 + 0x80) < 0xC0 := by
  rw [UInt8.le_iff_toNat_le, UInt8.lt_iff_toNat_lt, UInt8.toNat_ofNat']
  simp only [UInt8.reduceToNat]
  omega

theorem utf8EncodeChar_shape (c : Char) : ∃ b bs, String.utf8EncodeChar c = b :: bs ∧
    (b < 0x80 ∧ bs = [] ∨ 0xC0 ≤ b ∧ ∀ x ∈ bs, 0x80 ≤ x ∧ x < 0xC0) := by
  fun_cases String.utf8EncodeChar with
  | case1 v h =>
    refine ⟨_, _, rfl, Or.inl ⟨?_, rfl⟩⟩
    rw [UInt8.lt_iff_toNat_lt, UInt8.toNat_ofNat']
    simp only [UInt8.reduceToNat]
    omega
  | case2 | case3 | case4 =>
    refine ⟨_, _, rfl, Or.inr ⟨?_, ?_⟩⟩
    · rw [UInt8.le_iff_toNat_le, UInt8.toNat_ofNat']
      simp only [UInt8.reduceToNat]
      omega
    · simp only [List.mem_cons, List.not_mem_nil, or_false, forall_eq_or_imp, forall_eq,
        continuation_bounds, and_self]

namespace Encoded

theorem nil : Encoded [] := ⟨[], rfl⟩

theorem append {t u : Text} : Encoded t → Encoded u → Encoded (t ++ u) := by
  rintro ⟨cs, rfl⟩ ⟨ds, rfl⟩
  exact ⟨cs ++ ds, by rw [List.flatMap_append]⟩

theorem head_not_continuation {b : UInt8} {t : Text} : Encoded (b :: t) → b < 0x80 ∨ 0xC0 ≤ b := by
  rintro ⟨_ | ⟨c, cs⟩, h⟩
  · simp at h
  · obtain ⟨x, xs, hx, hb⟩ := utf8EncodeChar_shape c
    rw [List.flatMap_cons, hx, List.cons_append] at h
    cases h
    rcases hb with ⟨hb, -⟩ | ⟨hb, -⟩
    · exact Or.inl hb
    · exact Or.inr hb

/-- What follows an encoded text in an encoded text is encoded: the code is free of prefixes. -/
theorem of_append : ∀ {t u : Text}, Encoded t → Encoded (t ++ u) → Encoded u := by
  rintro t u ⟨cs, rfl⟩ ⟨ds, h⟩
  induction cs generalizing ds with
  | nil => exact ⟨ds, h⟩
  | cons c cs ih =>
    rw [List.flatMap_cons, List.append_assoc] at h
    cases ds with
    | nil => simp at h
    | cons d ds =>
      rw [List.flatMap_cons] at h
      -- Both sides decode to their first character.
      have hc := ByteArray.utf8DecodeChar?_utf8EncodeChar_append
        (b := (cs.flatMap String.utf8EncodeChar ++ u).toByteArray) (c := c)
      have hd := ByteArray.utf8DecodeChar?_utf8EncodeChar_append
        (b := (ds.flatMap String.utf8EncodeChar).toByteArray) (c := d)
      rw [← List.toByteArray_append, h, List.toByteArray_append, hd] at hc
      cases hc
      exact ih ds (List.append_cancel_left h)

end Encoded

/-- Cutting the text at the offset `n` leaves two encoded texts. -/
structure Cuts (t : Text) (n : ℕ) : Prop where
  take : Encoded (t.take n)
  drop : Encoded (t.drop n)

namespace Cuts

theorem zero {t : Text} (h : Encoded t) : Cuts t 0 := ⟨.nil, h⟩

theorem end_of_le {t : Text} {n : ℕ} (h : Encoded t) (hn : t.length ≤ n) : Cuts t n :=
  ⟨by rwa [List.take_of_length_le hn], by rw [List.drop_eq_nil_of_le hn]; exact .nil⟩

theorem add {t : Text} {m n : ℕ} (h : Cuts t m) (h' : Cuts (t.drop m) n) : Cuts t (m + n) where
  take := by rw [List.take_add]; exact h.take.append h'.take
  drop := by rw [← List.drop_drop]; exact h'.drop

theorem append_left {t u : Text} {n : ℕ} (ht : Encoded t) (h : Cuts u n) :
    Cuts (t ++ u) (t.length + n) where
  take := by rw [List.take_length_add_append]; exact ht.append h.take
  drop := by rw [List.drop_length_add_append]; exact h.drop

end Cuts

/-- A text can be cut in front of a byte that does not continue a character. -/
theorem cuts_at {t : Text} {n : ℕ} {b : UInt8} (h : Encoded t) (hb : t[n]? = some b)
    (hlt : b < 0x80 ∨ 0xC0 ≤ b) : Cuts t n := by
  obtain ⟨cs, rfl⟩ := h
  induction cs generalizing n with
  | nil => simp at hb
  | cons c cs ih =>
    rw [List.flatMap_cons] at hb ⊢
    have hc : Encoded (String.utf8EncodeChar c) := ⟨[c], by simp⟩
    rcases Nat.lt_or_ge n (String.utf8EncodeChar c).length with hn | hn
    · -- The byte belongs to the first character, so it is its first byte.
      rw [List.getElem?_append_left hn] at hb
      obtain ⟨x, xs, hx, hs⟩ := utf8EncodeChar_shape c
      rw [hx] at hb hn
      match n with
      | 0 => exact .zero (hc.append ⟨cs, rfl⟩)
      | n + 1 =>
        rw [List.getElem?_cons_succ] at hb
        have hm := List.mem_of_getElem? hb
        rcases hs with ⟨-, rfl⟩ | ⟨-, hs⟩
        · simp at hm
        · rcases hlt with hlt | hlt
          · exact absurd hlt (UInt8.not_lt.mpr (hs b hm).1)
          · exact absurd hlt (UInt8.not_le.mpr (hs b hm).2)
    · rw [List.getElem?_append_right hn] at hb
      obtain ⟨m, rfl⟩ := Nat.exists_eq_add_of_le hn
      rw [Nat.add_sub_cancel_left] at hb
      exact .append_left hc (ih hb)

/-- A text can be cut behind an ASCII byte. -/
theorem cuts_behind {t : Text} {n : ℕ} {b : UInt8} (h : Encoded t) (hb : t[n]? = some b)
    (hlt : b < 0x80) : Cuts t (n + 1) := by
  have hcut := cuts_at h hb (Or.inl hlt)
  refine hcut.add ?_
  obtain ⟨cs, hcs⟩ := hcut.drop
  have hd : t.drop n = b :: t.drop (n + 1) := by
    obtain ⟨hn, rfl⟩ := List.getElem?_eq_some_iff.mp hb
    exact List.drop_eq_getElem_cons hn
  rw [hd] at hcs ⊢
  cases cs with
  | nil => simp at hcs
  | cons c cs =>
    obtain ⟨x, xs, hx, hs⟩ := utf8EncodeChar_shape c
    rw [List.flatMap_cons, hx, List.cons_append, List.cons.injEq] at hcs
    obtain ⟨rfl, ht⟩ := hcs
    rcases hs with ⟨-, rfl⟩ | ⟨hs, -⟩
    · exact ⟨⟨[c], by simp [hx]⟩, ⟨cs, ht⟩⟩
    · exact absurd hlt (UInt8.not_lt.mpr (UInt8.le_trans (by decide) hs))

theorem not_continuation_iff : ∀ b : UInt8, (b &&& 0xC0 != 0x80) = true ↔ b < 0x80 ∨ 0xC0 ≤ b :=
  forall_byte (by decide +kernel)

theorem isBoundary_of_encoded_drop {t : Text} {n : ℕ} (h : Encoded (t.drop n)) (hn : n ≤ t.length) :
    t.isBoundary n = true := by
  unfold Text.isBoundary
  split
  · next hd =>
    rw [List.drop_eq_nil_iff] at hd
    exact beq_iff_eq.mpr (by omega)
  · next hd =>
    rw [hd] at h
    exact (not_continuation_iff _).mpr h.head_not_continuation

/-- A cut lies on a character boundary. -/
theorem Cuts.isBoundary {t : Text} {n : ℕ} (h : Cuts t n) (hn : n ≤ t.length) : t.isBoundary n = true :=
  isBoundary_of_encoded_drop h.drop hn

theorem not_continuation_of_isBoundary {t : Text} {n : ℕ} {b : UInt8} (h : t.isBoundary n = true)
    (hb : t[n]? = some b) : b < 0x80 ∨ 0xC0 ≤ b := by
  obtain ⟨hn, rfl⟩ := List.getElem?_eq_some_iff.mp hb
  rw [Text.isBoundary, List.drop_eq_getElem_cons hn] at h
  exact (not_continuation_iff _).mp h

/-- A text can be cut on every character boundary. -/
theorem Cuts.of_isBoundary {t : Text} {n : ℕ} (h : Encoded t) (hb : t.isBoundary n = true) : Cuts t n := by
  unfold Text.isBoundary at hb
  split at hb
  · exact .end_of_le h (beq_iff_eq.mp hb).ge
  · next b rest hd =>
    refine cuts_at h (b := b) ?_ ((not_continuation_iff b).mp hb)
    have : (t.drop n)[0]? = t[n + 0]? := List.getElem?_drop
    rw [hd] at this
    exact this.symm

theorem Encoded.isBoundary_add {t u : Text} {n : ℕ} (h : Encoded t) (ho : t.isBoundary n = true)
    (hn : n ≤ t.length) (hu : Encoded u) (hp : u <+: t.drop n) : t.isBoundary (n + u.length) = true := by
  have hlen := hp.length_le
  rw [List.length_drop] at hlen
  obtain ⟨r, hr⟩ := hp
  have hd := (Cuts.of_isBoundary h ho).drop
  rw [← hr] at hd
  refine isBoundary_of_encoded_drop ?_ (by omega)
  rw [← List.drop_drop, ← hr, List.drop_left]
  exact hu.of_append hd

theorem isBoundary_drop {t : Text} {m n : ℕ} (hm : m ≤ t.length) (hb : t.isBoundary (m + n) = true) :
    Text.isBoundary (t.drop m) n = true := by
  unfold Text.isBoundary at hb ⊢
  rw [List.drop_drop]
  split
  · next hd =>
    rw [hd, beq_iff_eq] at hb
    rw [beq_iff_eq, List.length_drop]
    omega
  · next hd =>
    rw [hd] at hb
    exact hb

/-- What stands between two character boundaries is encoded. -/
theorem Encoded.of_isBoundary {t u : Text} {n : ℕ} (h : Encoded t) (hu : u <+: t.drop n) (hn : n ≤ t.length)
    (ho : t.isBoundary n = true) (hc : t.isBoundary (n + u.length) = true) : Encoded u := by
  have hd := (Cuts.of_isBoundary h ho).drop
  have ht := (Cuts.of_isBoundary hd (isBoundary_drop hn hc)).take
  rwa [← List.prefix_iff_eq_take.mp hu] at ht

end Polyfill.Text
