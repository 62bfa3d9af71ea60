import Polyfill.Proofs.Name.Proper
import Polyfill.Proofs.Text.Search
import Polyfill.Proofs.Text.Encoding

/-! # Whole words

An identifier stands as a whole word where no byte of an identifier is next to it. The scan for whole words goes on
behind each hit, but it misses none: a place inside a hit has a byte of the word in front of it.

* `WordAt`: the word stands at an offset, up to case, with no byte of an identifier next to it.
* `mem_wholeWords_iff`: the scan finds exactly these places.
* `Border`: an offset that parts no two bytes of identifiers. -/

namespace Polyfill.Text

open Name

theorem isIdentByte_lowerByte : ∀ b : UInt8, isIdentByte (lowerByte b) = isIdentByte b :=
  forall_byte (by decide +kernel)

theorem identAt_iff {t : Text} {i : ℕ} : t.identAt i = true ↔ ∃ b, t[i]? = some b ∧ isIdentByte b = true := by
  rw [identAt, ← List.head?_drop]
  cases t.drop i <;> simp [startsInIdent]

theorem identBefore_iff {t : Text} {i : ℕ} (hi : i ≤ t.length) :
    t.identBefore i = true ↔ 0 < i ∧ ∃ b, t[i - 1]? = some b ∧ isIdentByte b = true := by
  rw [identBefore]
  rcases Nat.eq_zero_or_pos i with rfl | hpos
  · simp
  · rw [List.getLast?_eq_getElem?, List.length_take, min_eq_left hi, List.getElem?_take_of_lt (by omega),
      List.getElem?_eq_getElem (by omega : i - 1 < t.length)]
    simp [hpos]

theorem identBefore_zero (t : Text) : t.identBefore 0 = false := rfl

theorem identBefore_succ {t : Text} {i : ℕ} (hi : i < t.length) : t.identBefore (i + 1) = t.identAt i := by
  rw [Bool.eq_iff_iff, identBefore_iff (Nat.succ_le_of_lt hi), identAt_iff]
  exact and_iff_right (Nat.succ_pos i)

theorem identBefore_eq_false {t : Text} {i : ℕ} {b : UInt8} (h : t[i - 1]? = some b) (hb : isIdentByte b = false) :
    t.identBefore i = false := by
  rcases Nat.eq_zero_or_pos i with rfl | hpos
  · rfl
  · have hlt := (List.getElem?_eq_some_iff.mp h).1
    rw [Bool.eq_false_iff, ne_eq, identBefore_iff (by omega), h]
    rintro ⟨-, x, hx, hident⟩
    cases hx
    exact Bool.false_ne_true (hb.symm.trans hident)

/-- **The word stands at the offset `o` as a whole identifier**, ignoring the case of ASCII letters. -/
structure WordAt (word t : Text) (o : ℕ) : Prop where
  spells : (t.slice o (o + word.length)).lower = word.lower
  opens : t.identBefore o = false
  closes : t.identAt (o + word.length) = false

theorem length_lower (t : Text) : t.lower.length = t.length := List.length_map ..

section Segment

variable {word t : Text} {o : ℕ} (hw : Segment word)
include hw

theorem WordAt.le (h : WordAt word t o) : o + word.length ≤ t.length := by
  have hlen := congrArg List.length h.spells
  have hpos := List.length_pos_of_ne_nil hw.1
  simp only [length_lower, slice, List.length_take, List.length_drop] at hlen
  omega

theorem WordAt.ident (h : WordAt word t o) {k : ℕ} (hk : k < word.length) : t.identAt (o + k) = true := by
  have hle := h.le hw
  refine identAt_iff.mpr ⟨t[o + k], List.getElem?_eq_getElem (by omega), ?_⟩
  have hbyte : lowerByte t[o + k] = lowerByte word[k] := by
    have hget := congrArg (·[k]?) h.spells
    simp only [lower, slice, List.getElem?_map, Nat.add_sub_cancel_left, List.getElem?_take_of_lt hk,
      List.getElem?_drop] at hget
    rw [List.getElem?_eq_getElem (by omega : o + k < t.length), List.getElem?_eq_getElem hk] at hget
    exact Option.some.inj hget
  rw [← isIdentByte_lowerByte, hbyte, isIdentByte_lowerByte]
  exact hw.2 _ (List.getElem_mem hk)

/-- **The scan finds all whole words.** -/
theorem mem_wholeWords_iff : o ∈ wholeWords word t ↔ WordAt word t o := by
  have hspells : word.lower <+: t.lower.drop o ↔ (t.slice o (o + word.length)).lower = word.lower := by
    rw [List.prefix_iff_eq_take, length_lower, slice, Nat.add_sub_cancel_left]
    simp only [lower, List.map_take, List.map_drop, eq_comm]
  rw [wholeWords, List.mem_filter, Bool.and_eq_true, Bool.not_eq_true', Bool.not_eq_true']
  constructor
  · rintro ⟨hhit, hopens, hcloses⟩
    exact ⟨hspells.mp (prefix_drop_of_mem_occurrences hhit), hopens, hcloses⟩
  · intro h
    refine ⟨?_, h.opens, h.closes⟩
    have hne : word.lower ≠ [] := by simpa [lower] using hw.1
    rcases mem_occurrences_or_overlap hne (hspells.mpr h.spells) with hhit | ⟨u, v, hu, -, heq, -, front, hfront⟩
    · exact hhit
    · -- the last byte of `u` stands in front of the place and belongs to the word
      exfalso
      obtain ⟨u, b, rfl⟩ := (List.eq_nil_or_concat u).resolve_left hu
      rw [List.concat_eq_append] at heq hfront
      have hb : isIdentByte b = true := by
        obtain ⟨x, hx, rfl⟩ := List.mem_map.mp (heq ▸ (by simp : b ∈ u ++ [b] ++ v) : b ∈ word.lower)
        rw [isIdentByte_lowerByte]
        exact hw.2 x hx
      have hlast : ((t.take o).getLast?).map lowerByte = some b := by
        rw [← List.getLast?_map, List.map_take, ← lower, ← hfront]
        simp
      obtain ⟨x, hx, rfl⟩ := Option.map_eq_some_iff.mp hlast
      have hopens := h.opens
      rw [identBefore, hx] at hopens
      rw [isIdentByte_lowerByte] at hb
      exact Bool.false_ne_true (hopens.symm.trans hb)

end Segment

/-- **The offset parts no two bytes of identifiers.** -/
def Border (t : Text) (i : ℕ) : Prop := t.identBefore i = true → t.identAt i = false

instance (t : Text) : DecidablePred (Border t) := fun _ => inferInstanceAs (Decidable (_ → _))

theorem border_length (t : Text) : Border t t.length := fun _ => by
  rw [identAt, List.drop_length]
  rfl

end Polyfill.Text
