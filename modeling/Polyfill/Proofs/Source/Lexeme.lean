import Mathlib.Data.List.TakeWhile
import Polyfill.Proofs.Text.Encoding
import Polyfill.Proofs.Text.Words
import Polyfill.Source.Lexer

/-! # Where lexemes end

Every lexeme ends behind an ASCII byte, in front of one, or with the text, so no lexeme ends inside a
character. Blanks, comments and names end next to a byte of no identifier in the same way, so no name goes on
behind its end.

* `Ascii`: the text starts with so many ASCII bytes.
* `Seam`: the offset lies next to an ASCII byte or at the end of the text.
* `Edge`: the offset lies next to a byte of no identifier or at the end of the text.
* one lemma for each scanner: where what it finds ends. -/

namespace Polyfill.Source

/-! ### Bytes in front -/

/-- The text starts with `n` ASCII bytes. -/
structure Ascii (t : Text) (n : ℕ) : Prop where
  le : n ≤ t.length
  lt : ∀ b ∈ t.take n, b < 0x80

/-- The offset lies at the end of the text, in front of a byte that meets the condition, or behind one. -/
def NextTo (p : UInt8 → Prop) (t : Text) (n : ℕ) : Prop :=
  n = t.length ∨ (∃ b, t[n]? = some b ∧ p b) ∨ ∃ k b, n = k + 1 ∧ t[k]? = some b ∧ p b

/-- The offset lies at the end of the text or next to an ASCII byte. -/
abbrev Seam (t : Text) (n : ℕ) : Prop := NextTo (· < 0x80) t n

/-- The offset lies at the end of the text or next to a byte that belongs to no identifier. -/
abbrev Edge (t : Text) (n : ℕ) : Prop := NextTo (isIdentByte · = false) t n

namespace Ascii

variable {t : Text} {m n : ℕ} {b : UInt8}

theorem zero (t : Text) : Ascii t 0 := ⟨Nat.zero_le _, by simp⟩

theorem cons (hb : b < 0x80) (h : Ascii t n) : Ascii (b :: t) (n + 1) where
  le := Nat.succ_le_succ h.le
  lt x hx := by
    rw [List.take_succ_cons, List.mem_cons] at hx
    rcases hx with rfl | hx
    · exact hb
    · exact h.lt x hx

theorem add (h : Ascii t m) (h' : Ascii (t.drop m) n) : Ascii t (m + n) where
  le := by
    have := h'.le
    have := h.le
    rw [List.length_drop] at *
    omega
  lt x hx := by
    rw [List.take_add, List.mem_append] at hx
    exact hx.elim (h.lt x) (h'.lt x)

theorem of_isPrefix {s : Text} (h : s <+: t) (hs : ∀ b ∈ s, b < 0x80) : Ascii t s.length where
  le := h.length_le
  lt x hx := by
    obtain ⟨r, rfl⟩ := h
    rw [List.take_left] at hx
    exact hs x hx

theorem seam (h : Ascii t n) (hn : 0 < n) : Seam t n := by
  obtain ⟨k, rfl⟩ : ∃ k, n = k + 1 := ⟨n - 1, by omega⟩
  have hk : k < t.length := h.le
  refine Or.inr (Or.inr ⟨k, t[k], rfl, List.getElem?_eq_getElem hk, h.lt _ ?_⟩)
  rw [List.mem_take_iff_getElem]
  exact ⟨k, by omega, rfl⟩

end Ascii

namespace NextTo

variable {p q : UInt8 → Prop} {t : Text} {m n : ℕ} {b : UInt8}

theorem le (h : NextTo p t n) : n ≤ t.length := by
  rcases h with rfl | ⟨b, hb, -⟩ | ⟨k, b, rfl, hb, -⟩
  · exact le_rfl
  · exact (List.getElem?_eq_some_iff.mp hb).1.le
  · exact (List.getElem?_eq_some_iff.mp hb).1

theorem mono (hpq : ∀ b, p b → q b) (h : NextTo p t n) : NextTo q t n :=
  h.imp_right (Or.imp (fun ⟨b, hb, hp⟩ => ⟨b, hb, hpq b hp⟩) fun ⟨k, b, hk, hb, hp⟩ => ⟨k, b, hk, hb, hpq b hp⟩)

theorem head (hb : p b) : NextTo p (b :: t) 0 := Or.inr (Or.inl ⟨b, rfl, hb⟩)

theorem behind (hb : p b) : NextTo p (b :: t) 1 := Or.inr (Or.inr ⟨0, b, rfl, rfl, hb⟩)

theorem cons (h : NextTo p t n) : NextTo p (b :: t) (n + 1) := by
  rcases h with rfl | ⟨x, hx, hp⟩ | ⟨k, x, rfl, hx, hp⟩
  · exact Or.inl rfl
  · exact Or.inr (Or.inl ⟨x, hx, hp⟩)
  · exact Or.inr (Or.inr ⟨k + 1, x, rfl, hx, hp⟩)

theorem drop (hm : m ≤ t.length) (h : NextTo p (t.drop m) n) : NextTo p t (m + n) := by
  rcases h with rfl | ⟨x, hx, hp⟩ | ⟨k, x, rfl, hx, hp⟩
  · exact Or.inl (by rw [List.length_drop]; omega)
  · rw [List.getElem?_drop] at hx
    exact Or.inr (Or.inl ⟨x, hx, hp⟩)
  · rw [List.getElem?_drop] at hx
    exact Or.inr (Or.inr ⟨m + k, x, rfl, hx, hp⟩)

theorem of_isPrefix {s : Text} (h : s <+: t) (hne : s ≠ []) (hs : ∀ b ∈ s, p b) : NextTo p t s.length := by
  obtain ⟨r, rfl⟩ := h
  obtain ⟨s, b, rfl⟩ := (List.eq_nil_or_concat s).resolve_left hne
  exact Or.inr (Or.inr ⟨s.length, b, by simp, by simp, hs b (by simp)⟩)

end NextTo

/-! ### Classes of bytes -/

theorem lt_of_isCodeBlank : ∀ b : UInt8, isCodeBlank b = true → b < 0x80 := by
  grind [isCodeBlank]

theorem lt_of_not_isIdentByte : ∀ b : UInt8, isIdentByte b = false → b < 0x80 := by
  grind [isIdentByte, isIdentStart]

theorem Edge.seam {t : Text} {n : ℕ} (h : Edge t n) : Seam t n := h.mono lt_of_not_isIdentByte

theorem not_isIdentByte_of_isCodeBlank : ∀ b : UInt8, isCodeBlank b = true → isIdentByte b = false := by
  grind [isIdentByte, isIdentStart, isDigit, isLetter, isCodeBlank]

theorem not_isCodeBlank_of_isIdentByte : ∀ b : UInt8, isIdentByte b = true → isCodeBlank b = false := by
  grind [isIdentByte, isIdentStart, isDigit, isLetter, isCodeBlank]

theorem isIdentByte_of_isIdentStart {b : UInt8} (h : isIdentStart b = true) : isIdentByte b = true := by
  simp [isIdentByte, h]

theorem lt_of_isDigit : ∀ b : UInt8, isDigit b = true → b < 0x80 := by
  grind [isDigit]

theorem lt_of_baseDigits : ∀ (letter : UInt8) (digit : UInt8 → Bool), baseDigits letter = some digit →
    letter < 0x80 ∧ ∀ b, digit b = true → b < 0x80 := by
  intro letter digit h
  unfold baseDigits at h
  split_ifs at h with h₁ h₂ h₃ <;> cases h
  all_goals
    refine ⟨?_, by grind [isHexDigit, isOctalDigit, isBinaryDigit, isDigit]⟩
    simp only [Bool.or_eq_true, beq_iff_eq] at *
  · rcases h₁ with rfl | rfl <;> decide
  · rcases h₂ with rfl | rfl <;> decide
  · rcases h₃ with rfl | rfl <;> decide

theorem lt_of_lowerByte : ∀ b : UInt8, Text.lowerByte b < 0x80 → b < 0x80 := by
  grind [Text.lowerByte]

/-- An ASCII byte that is no blank. -/
def isDark (b : UInt8) : Bool := decide (b < 0x80) && !isCodeBlank b

theorem isDark_iff {b : UInt8} : isDark b = true ↔ b < 0x80 ∧ isCodeBlank b = false := by
  simp [isDark]

theorem forall_of_all_isDark {t : Text} (h : t.all isDark = true) :
    ∀ b ∈ t, b < 0x80 ∧ isCodeBlank b = false :=
  fun b hb => isDark_iff.mp (List.all_eq_true.mp h b hb)

theorem isDark_of_lowerByte : ∀ b : UInt8, isDark (Text.lowerByte b) = true → isDark b = true := by
  grind [isDark, Text.lowerByte, isCodeBlank]

theorem startsWith_iff {t : Text} {s : String} : t.startsWith s = true ↔ Text.ofString s <+: t :=
  List.isPrefixOf_iff_prefix

theorem exists_of_headIs {p : UInt8 → Bool} {t : Text} (h : headIs p t = true) :
    ∃ b rest, t = b :: rest ∧ p b = true := by
  cases t with
  | nil => cases h
  | cons b rest => exact ⟨b, rest, rfl, h⟩

/-! ### Blanks and comments -/

theorem ascii_takeWhile {p : UInt8 → Bool} (hp : ∀ b, p b = true → b < 0x80) (t : Text) :
    Ascii t (t.takeWhile p).length :=
  .of_isPrefix (List.takeWhile_prefix p) fun b hb => hp b (List.mem_takeWhile_imp hb)

theorem edge_lineCommentLength : ∀ t : Text, Edge t (lineCommentLength t)
  | [] => Or.inl rfl
  | b :: t => by
    rw [lineCommentLength]
    split
    · next h =>
      refine .head ?_
      simp only [Bool.or_eq_true, Bool.and_eq_true, beq_iff_eq] at h
      rcases h with (rfl | rfl) | ⟨rfl, -⟩ <;> decide
    · exact (edge_lineCommentLength t).cons

theorem ne_lineFeed_of_lt_lineCommentLength : ∀ (t : Text) {i : ℕ}, i < lineCommentLength t → t[i]? ≠ some 0x0A
  | [], i, h => by simp
  | b :: t, i, h => by
    rw [lineCommentLength] at h
    split at h
    · omega
    · next hb =>
      cases i with
      | zero =>
        rintro ⟨⟩
        exact hb rfl
      | succ i => exact ne_lineFeed_of_lt_lineCommentLength t (by omega)

theorem last_blockCommentLength? {t : Text} {n : ℕ} (h : blockCommentLength? t = some n) :
    0 < n ∧ t[n - 1]? = some 0x2F := by
  obtain ⟨r, hr, rfl⟩ := Option.map_eq_some_iff.mp h
  obtain ⟨before, hb, -⟩ := Text.after?_eq_some_iff.mp hr
  have hlen := congrArg List.length hb
  have hm : (Text.ofString "*/").length = 2 := by decide
  simp only [List.length_drop, List.length_append, hm] at hlen
  refine ⟨by omega, ?_⟩
  have hk : (t.drop 2)[before.length + 1]? = some 0x2F := by
    rw [hb, List.getElem?_append_right (by omega), List.getElem?_append_left (by rw [hm]; omega),
      Nat.add_sub_cancel_left]
    decide
  rwa [List.getElem?_drop, show 2 + (before.length + 1) = t.length - r.length - 1 by omega] at hk

theorem edge_trivia? {t : Text} {n : ℕ} (h : trivia? t = some n) (hn : 0 < n) : Edge t n := by
  unfold trivia? at h
  split_ifs at h
  · cases h
    exact .of_isPrefix (List.takeWhile_prefix _) (List.ne_nil_of_length_pos hn) fun b hb =>
      not_isIdentByte_of_isCodeBlank b (List.mem_takeWhile_imp hb)
  · cases h
    exact edge_lineCommentLength t
  · cases h
    exact edge_lineCommentLength t
  · obtain ⟨hpos, hlast⟩ := last_blockCommentLength? h
    exact Or.inr (Or.inr ⟨n - 1, 0x2F, by omega, hlast, by decide⟩)
  · cases h
    omega

theorem head_of_trivia? {b : UInt8} {t : Text} (h : trivia? (b :: t) = some 0) : isCodeBlank b = false := by
  unfold trivia? at h
  split_ifs at h with h₁
  · have : isCodeBlank b = true := h₁
    rw [List.takeWhile_cons_of_pos this] at h
    simp at h
  all_goals simpa [headIs] using h₁

/-! ### Names -/

theorem nextTo_takeWhile {p : UInt8 → Bool} : ∀ t : Text, NextTo (p · = false) t (t.takeWhile p).length
  | [] => Or.inl rfl
  | b :: t => by
    cases hb : p b with
    | false =>
      rw [List.takeWhile_cons_of_neg (by simp [hb])]
      exact .head hb
    | true =>
      rw [List.takeWhile_cons_of_pos hb]
      exact (nextTo_takeWhile t).cons

theorem edge_identLength (t : Text) : Edge t (identLength t) := nextTo_takeWhile t

theorem ink_identLength (t : Text) : ∀ b ∈ t.take (identLength t), isCodeBlank b = false := by
  intro b hb
  rw [identLength, ← List.prefix_iff_eq_take.mp (List.takeWhile_prefix _)] at hb
  exact not_isCodeBlank_of_isIdentByte b (List.mem_takeWhile_imp hb)

theorem identLength_pos {t : Text} (h : headIs isIdentStart t = true) : 0 < identLength t := by
  obtain ⟨b, rest, rfl, hb⟩ := exists_of_headIs h
  rw [identLength, List.takeWhile_cons_of_pos (isIdentByte_of_isIdentStart hb)]
  exact Nat.succ_pos _

theorem edge_nameLength : ∀ t : Text, Edge t (nameLength t)
  | [] => Or.inl rfl
  | b :: t => by
    rw [nameLength]
    split
    · exact (edge_nameLength t).cons
    · next h =>
      simp only [Bool.or_eq_true, not_or, Bool.not_eq_true] at h
      exact .head h.1

theorem ink_nameLength : ∀ t : Text, ∀ b ∈ t.take (nameLength t), isCodeBlank b = false
  | [] => by simp
  | b :: t => by
    rw [nameLength]
    split
    · next h =>
      rw [List.take_succ_cons]
      intro x hx
      rcases List.mem_cons.mp hx with rfl | hx
      · simp only [Bool.or_eq_true, Bool.and_eq_true, beq_iff_eq] at h
        rcases h with h | ⟨rfl, -⟩
        · exact not_isCodeBlank_of_isIdentByte x h
        · decide
      · exact ink_nameLength t x hx
    · simp

theorem nameLength_pos {t : Text}
    (h : (headIs isIdentStart t || (t.startsWith "\\" && headIs isIdentStart (t.drop 1))) = true) :
    0 < nameLength t := by
  cases t with
  | nil => simp [headIs] at h
  | cons b t =>
    rw [nameLength, if_pos]
    · exact Nat.succ_pos _
    · simp only [Bool.or_eq_true, Bool.and_eq_true] at h ⊢
      rcases h with h | ⟨h, h'⟩
      · exact Or.inl (isIdentByte_of_isIdentStart h)
      · obtain ⟨r, hr⟩ := startsWith_iff.mp h
        have hb : b = Name.separator := by
          have : Text.ofString "\\" = [0x5C] := by decide
          rw [this] at hr
          cases hr
          rfl
        exact Or.inr ⟨by simp [hb], h'⟩

/-- A name ends with a byte of an identifier. -/
theorem last_nameLength : ∀ {t : Text}, 0 < nameLength t →
    ∃ b ∈ (t.take (nameLength t)).getLast?, isIdentByte b = true
  | [], h => absurd h (lt_irrefl 0)
  | b :: t, h => by
    rw [nameLength] at h ⊢
    split at h
    · next hb =>
      rw [if_pos hb, List.take_succ_cons, List.getLast?_cons]
      by_cases hpos : 0 < nameLength t
      · obtain ⟨x, hx, hident⟩ := last_nameLength hpos
        exact ⟨x, by rw [hx]; rfl, hident⟩
      · -- what stands behind a separator starts a name
        rw [Nat.eq_zero_of_not_pos hpos, List.take_zero]
        simp only [Bool.or_eq_true, Bool.and_eq_true] at hb
        exact ⟨b, rfl, hb.resolve_right fun h => hpos (nameLength_pos (by rw [h.2]; rfl))⟩
    · omega

/-- The text starts or ends with a byte of an identifier. -/
def Stemmed (t : Text) : Prop := headIs isIdentByte t = true ∨ ∃ b ∈ t.getLast?, isIdentByte b = true

theorem Stemmed.ne_nil {t : Text} (h : Stemmed t) : t ≠ [] := by
  rintro rfl
  rcases h with h | ⟨b, hb, -⟩ <;> cases ‹_›

theorem dark_of_sameIgnoringCase {t s : Text} {n : ℕ} (h : Text.sameIgnoringCase (t.take n) s = true)
    (hn : n = s.length)
    (hs : s.lower.all isDark = true) :
    Ascii t n ∧ ∀ b ∈ t.take n, isCodeBlank b = false := by
  rw [Text.sameIgnoringCase, beq_iff_eq] at h
  have hmem : ∀ b ∈ t.take n, Text.lowerByte b ∈ s.lower := by
    intro b hb
    rw [← h]
    exact List.mem_map_of_mem hb
  have hlen := congrArg List.length h
  simp only [Text.lower, List.length_map, List.length_take] at hlen
  have hdark : ∀ b ∈ t.take n, b < 0x80 ∧ isCodeBlank b = false := fun b hb =>
    isDark_iff.mp (isDark_of_lowerByte b (List.all_eq_true.mp hs _ (hmem b hb)))
  exact ⟨⟨by omega, fun b hb => (hdark b hb).1⟩, fun b hb => (hdark b hb).2⟩

/-- A mark behind a modifier ends with a parenthesis, and none of its bytes is a blank. -/
theorem setMarkLength_spec (name after : Text) :
    (setMarkLength name after = 0 ∨ Edge after (setMarkLength name after)) ∧
      ∀ b ∈ after.take (setMarkLength name after), isCodeBlank b = false := by
  rw [setMarkLength]
  split
  · next h =>
    rw [Bool.and_eq_true] at h
    refine ⟨Or.inr ?_, (dark_of_sameIgnoringCase h.2 rfl rfl).2⟩
    have hlower : Text.lower (after.take 5) = setMark.lower := beq_iff_eq.mp h.2
    obtain ⟨b, hb, hlast⟩ : ∃ b, after[4]? = some b ∧ Text.lowerByte b = 0x29 := by
      have hget : (Text.lower (after.take 5))[4]? = some 0x29 := by rw [hlower]; rfl
      simpa [Text.lower] using hget
    refine Or.inr (Or.inr ⟨4, b, rfl, hb, ?_⟩)
    change isIdentByte b = false
    rw [← Text.isIdentByte_lowerByte, hlast]
    decide
  · exact ⟨Or.inl rfl, by simp⟩

theorem setMarkLength_of_separator (name after : Text) : setMarkLength (Name.separator :: name) after = 0 := by
  have hlower : Text.lower (Name.separator :: name) = 0x5C :: name.lower := rfl
  have hspell : ∀ c cs, c ≠ '\\' → spelling (0x5C :: name.lower) ≠ String.ofList (c :: cs) := by
    intro c cs hc h
    exact hc (List.head_eq_of_cons_eq (String.ofList_injective h)).symm
  rw [setMarkLength, hlower, if_neg]
  simp only [Bool.and_eq_true, List.contains_eq_mem, decide_eq_true_eq, not_and]
  intro h
  simp only [List.mem_cons, List.not_mem_nil, or_false] at h
  rcases h with h | h | h
  · exact absurd h (hspell 'p' _ (by decide))
  · exact absurd h (hspell 'p' _ (by decide))
  · exact absurd h (hspell 'p' _ (by decide))

/-- A name, or a word with its mark, ends next to a byte of no identifier and is all ink. -/
theorem wordLength_spec {embedded : Bool} {t : Text}
    (h : (headIs isIdentStart t || (t.startsWith "\\" && headIs isIdentStart (t.drop 1))) = true) :
    0 < wordLength embedded t ∧ Edge t (wordLength embedded t) ∧
      ∀ b ∈ t.take (wordLength embedded t), isCodeBlank b = false := by
  obtain ⟨n, hn, hw⟩ : ∃ n, (0 < n ∧ Edge t n ∧ ∀ b ∈ t.take n, isCodeBlank b = false) ∧
      wordLength embedded t = n + setMarkLength (t.take n) (t.drop n) := by
    refine ⟨_, ?_, rfl⟩
    split
    · next hi =>
      rw [Bool.and_eq_true] at hi
      exact ⟨identLength_pos hi.2, edge_identLength t, ink_identLength t⟩
    · exact ⟨nameLength_pos h, edge_nameLength t, ink_nameLength t⟩
  obtain ⟨hm, hink⟩ := setMarkLength_spec (t.take n) (t.drop n)
  rw [hw]
  refine ⟨by omega, ?_, fun b hb => ?_⟩
  · rcases hm with hm | hm
    · rw [hm]
      exact hn.2.1
    · exact hm.drop hn.2.1.le
  · rw [List.take_add, List.mem_append] at hb
    exact hb.elim (hn.2.2 b) (hink b)

/-- A name that starts with a separator ends with a byte of an identifier. -/
theorem stemmed_wordLength {embedded : Bool} {t : Text}
    (h : (headIs isIdentStart t || (t.startsWith "\\" && headIs isIdentStart (t.drop 1))) = true) :
    Stemmed (t.take (wordLength embedded t)) := by
  obtain ⟨k, hk⟩ : ∃ k, wordLength embedded t = k + 1 := ⟨_, (Nat.succ_pred_eq_of_pos (wordLength_spec h).1).symm⟩
  by_cases hstart : headIs isIdentStart t = true
  · obtain ⟨b, rest, rfl, hb⟩ := exists_of_headIs hstart
    rw [hk, List.take_succ_cons]
    exact Or.inl (isIdentByte_of_isIdentStart hb)
  · have hpos := nameLength_pos h
    rw [Bool.or_eq_true, or_iff_right hstart, Bool.and_eq_true] at h
    obtain ⟨rest, rfl⟩ := startsWith_iff.mp h.1
    have hsep : Text.ofString "\\" ++ rest = Name.separator :: rest := by
      rw [show Text.ofString "\\" = [Name.separator] by decide]
      rfl
    rw [hsep] at hstart hpos ⊢
    obtain ⟨n, hn⟩ : ∃ n, nameLength (Name.separator :: rest) = n + 1 := ⟨_, (Nat.succ_pred_eq_of_pos hpos).symm⟩
    have hword : wordLength embedded (Name.separator :: rest) = nameLength (Name.separator :: rest) := by
      simp only [wordLength, hstart, Bool.and_false, Bool.false_eq_true, if_false]
      rw [hn, List.take_succ_cons, setMarkLength_of_separator, Nat.add_zero]
    rw [hword]
    exact Or.inr (last_nameLength hpos)

/-! ### Numbers -/

theorem ascii_digitsLength {digit : UInt8 → Bool} (hd : ∀ b, digit b = true → b < 0x80) : ∀ t : Text,
    Ascii t (digitsLength digit t)
  | [] => .zero _
  | b :: t => by
    rw [digitsLength]
    split
    · next h =>
      refine .cons ?_ (ascii_digitsLength hd t)
      simp only [Bool.or_eq_true, Bool.and_eq_true, beq_iff_eq] at h
      rcases h with h | ⟨rfl, -⟩
      · exact hd b h
      · decide
    · exact .zero _

theorem ascii_groupLength (t : Text) : Ascii t (groupLength isDigit t) := by
  rw [groupLength]
  split
  · exact ascii_digitsLength lt_of_isDigit t
  · exact .zero t

theorem groupLength_pos {t : Text} (h : headIs isDigit t = true) : 0 < groupLength isDigit t := by
  rw [groupLength, if_pos h]
  obtain ⟨b, rest, rfl, hb⟩ := exists_of_headIs h
  rw [digitsLength, if_pos (by simp [hb])]
  exact Nat.succ_pos _

theorem ascii_fractionLength (t : Text) : Ascii t (fractionLength t) := by
  unfold fractionLength
  split
  · next t =>
    rw [Nat.add_comm]
    exact .cons (by decide) (ascii_groupLength t)
  · exact .zero t

theorem ascii_exponentLength (t : Text) : Ascii t (exponentLength t) := by
  unfold exponentLength
  split
  · next e t =>
    split
    · next he =>
      extract_lets sign digits
      split
      · exact .zero _
      · have hs : Ascii t sign := by
          simp only [sign]
          split
          · next h =>
            obtain ⟨b, rest, rfl, hb⟩ := exists_of_headIs h
            refine .cons ?_ (.zero rest)
            simp only [Bool.or_eq_true, beq_iff_eq] at hb
            rcases hb with rfl | rfl <;> decide
          · exact .zero t
        rw [show 1 + sign + digits = sign + digits + 1 by omega]
        refine .cons ?_ (hs.add (ascii_groupLength _))
        simp only [Bool.or_eq_true, beq_iff_eq] at he
        rcases he with rfl | rfl <;> decide
    · exact .zero _
  · exact .zero _

theorem ascii_basedLength (t : Text) : Ascii t (basedLength t) := by
  unfold basedLength
  split
  · next letter t =>
    split
    · exact .zero _
    · next digit hd =>
      obtain ⟨hl, hdigit⟩ := lt_of_baseDigits letter digit hd
      split
      · rw [Nat.add_comm]
        exact .cons (by decide) (.cons hl (ascii_digitsLength hdigit t))
      · exact .zero _
  · exact .zero _

theorem fractionLength_pos {t : Text} (h : t.startsWith "." = true) : 0 < fractionLength t := by
  obtain ⟨r, rfl⟩ := startsWith_iff.mp h
  have : Text.ofString "." = [0x2E] := by decide
  rw [this]
  simp only [fractionLength, List.singleton_append]
  omega

/-- A number is made of ASCII bytes. -/
theorem numberLength?_spec {t : Text} {n : ℕ} (h : numberLength? t = some n)
    (ht : (headIs isDigit t || (t.startsWith "." && headIs isDigit (t.drop 1))) = true) :
    Ascii t n ∧ 0 < n := by
  unfold numberLength? at h
  split at h
  · unfold decimalLength? at h
    extract_lets whole fraction exponent digits at h
    split_ifs at h
    cases h
    have hw : Ascii t whole := ascii_groupLength t
    have hf : Ascii t (whole + fraction) := hw.add (ascii_fractionLength _)
    refine ⟨hf.add (ascii_exponentLength _), ?_⟩
    simp only [Bool.or_eq_true, Bool.and_eq_true] at ht
    rcases ht with ht | ⟨ht, -⟩
    · have : 0 < whole := groupLength_pos ht
      omega
    · rcases Nat.eq_zero_or_pos whole with hz | hp
      · have : 0 < fraction := by
          simp only [fraction]
          rw [hz]
          exact fractionLength_pos ht
        omega
      · omega
  · cases h
    refine ⟨ascii_basedLength t, Nat.pos_of_ne_zero ?_⟩
    assumption

/-! ### Literals, conversions and signs -/

theorem quotedLength?_spec {quote : UInt8} : ∀ {t : Text} {escaped : Bool} {n : ℕ},
    quotedLength? quote escaped t = some n → ∃ k, n = k + 1 ∧ t[k]? = some quote
  | [], _, _, h => by simp [quotedLength?] at h
  | b :: t, escaped, n, h => by
    rw [quotedLength?] at h
    split at h
    · next hb =>
      cases h
      simp only [Bool.and_eq_true, beq_iff_eq] at hb
      exact ⟨0, rfl, by simp [hb.1]⟩
    · obtain ⟨m, hm, rfl⟩ := Option.map_eq_some_iff.mp h
      obtain ⟨k, rfl, hk⟩ := quotedLength?_spec hm
      exact ⟨k + 1, rfl, hk⟩

theorem ascii_spacedLength? : ∀ {t pattern : Text} {n : ℕ}, (∀ b ∈ pattern, b < 0x80) →
    spacedLength? pattern t = some n → Ascii t n ∧ (pattern ≠ [] → 0 < n)
  | t, [], n, _, h => by
    rw [spacedLength?] at h
    cases h
    exact ⟨.zero t, fun hne => absurd rfl hne⟩
  | [], p :: ps, n, _, h => by simp [spacedLength?] at h
  | b :: t, p :: ps, n, hp, h => by
    rw [spacedLength?] at h
    split at h
    · next hb =>
      obtain ⟨m, hm, rfl⟩ := Option.map_eq_some_iff.mp h
      exact ⟨.cons (lt_of_isCodeBlank b hb) (ascii_spacedLength? hp hm).1, fun _ => Nat.succ_pos _⟩
    · split at h
      · next hb =>
        obtain ⟨m, hm, rfl⟩ := Option.map_eq_some_iff.mp h
        have hlt : b < 0x80 := lt_of_lowerByte b (by rw [beq_iff_eq.mp hb]; exact hp p (by simp))
        have ih := ascii_spacedLength? (fun x hx => hp x (by simp [hx])) hm
        exact ⟨.cons hlt ih.1, fun _ => Nat.succ_pos _⟩
      · cases h

theorem castTypes_spec : ∀ type ∈ castTypes,
    Text.ofString ("(" ++ type ++ ")") ≠ [] ∧ (Text.ofString ("(" ++ type ++ ")")).all isDark = true := by
  decide +kernel

theorem ascii_castLength? {t : Text} {n : ℕ} (h : castLength? t = some n) : Ascii t n ∧ 0 < n := by
  unfold castLength? at h
  split at h
  · obtain ⟨type, htype, hn⟩ := List.exists_of_findSome?_eq_some h
    obtain ⟨hne, hlt⟩ := castTypes_spec type htype
    obtain ⟨ha, hpos⟩ := ascii_spacedLength? (fun b hb => (forall_of_all_isDark hlt b hb).1) hn
    exact ⟨ha, hpos hne⟩
  · cases h

theorem signs_spec : ∀ s ∈ signs, Text.ofString s ≠ [] ∧
    (∀ b ∈ Text.ofString s, b < 0x80 ∧ isCodeBlank b = false) ∧
    (s ≠ ";" → (Text.ofString s).head? ≠ some 0x3B) := by
  have table : ∀ s ∈ signs, Text.ofString s ≠ [] ∧ (Text.ofString s).all isDark = true ∧
      (s ≠ ";" → (Text.ofString s).head? ≠ some 0x3B) := by decide +kernel
  intro s hs
  obtain ⟨hne, hdark, hhead⟩ := table s hs
  exact ⟨hne, forall_of_all_isDark hdark, hhead⟩

theorem not_ident_of_sign {s : String} (hs : s ∈ signs) {b : UInt8} (hb : b ∈ Text.ofString s) :
    isIdentByte b = false := by
  have table : ∀ s ∈ signs, (Text.ofString s).all (!isIdentByte ·) = true := by decide +kernel
  simpa using List.all_eq_true.mp (table s hs) b hb

theorem sign?_spec {t : Text} {s : String} (h : sign? t = some s) : s ∈ signs ∧ Text.ofString s <+: t :=
  ⟨List.mem_of_find?_eq_some h, startsWith_iff.mp (by simpa using List.find?_some h)⟩

theorem ascii_startsWith {t : Text} {s : String} (hs : (Text.ofString s).all (· < 0x80) = true)
    (h : t.startsWith s = true) : Ascii t (Text.ofString s).length :=
  .of_isPrefix (startsWith_iff.mp h) (by simpa using hs)

/-! ### Outside the code -/

theorem seam_inlineLength : ∀ t : Text, Seam t (inlineLength t)
  | [] => Or.inl rfl
  | b :: t => by
    rw [inlineLength]
    split
    · next h =>
      simp only [Bool.and_eq_true, beq_iff_eq] at h
      exact .head (by rw [h.1]; decide)
    · exact (seam_inlineLength t).cons

/-- What follows a text outside the code starts with a tag. -/
theorem tag_of_inlineLength : ∀ {t : Text}, inlineLength t ≠ t.length →
    Text.ofString "<?" <+: t.drop (inlineLength t)
  | [], h => absurd rfl h
  | b :: t, h => by
    rw [inlineLength] at h ⊢
    split at h
    · next hb =>
      simp only [Bool.and_eq_true, beq_iff_eq] at hb
      rw [if_pos (by simpa using hb)]
      obtain ⟨x, rest, rfl, hx⟩ := exists_of_headIs hb.2
      have htag : Text.ofString "<?" = [0x3C, 0x3F] := by decide
      rw [hb.1, beq_iff_eq.mp hx, htag]
      exact ⟨rest, rfl⟩
    · next hb =>
      rw [if_neg hb, List.drop_succ_cons]
      exact tag_of_inlineLength fun he => h (by rw [he]; rfl)

/-- An opening tag is made of ASCII bytes, and none of them is a blank. -/
theorem openingTag_spec {t : Text} {k : TokenKind} {n : ℕ} (ht : Text.ofString "<?" <+: t)
    (h : openingTag t = (k, n)) : (k = .openTag ∨ k = .echoTag) ∧ 0 < n ∧ Ascii t n ∧
      ∀ b ∈ t.take n, isCodeBlank b = false := by
  have hprefix : ∀ s : String, (Text.ofString s).all isDark = true →
      Text.ofString s <+: t → Ascii t (Text.ofString s).length ∧
        ∀ b ∈ t.take (Text.ofString s).length, isCodeBlank b = false := by
    intro s hdark hp
    have hs := forall_of_all_isDark hdark
    refine ⟨.of_isPrefix hp fun b hb => (hs b hb).1, fun b hb => ?_⟩
    rw [← List.prefix_iff_eq_take.mp hp] at hb
    exact (hs b hb).2
  unfold openingTag at h
  split_ifs at h with h₁ h₂
  · cases h
    exact ⟨Or.inl rfl, by decide, dark_of_sameIgnoringCase h₁ (by decide) rfl⟩
  · cases h
    exact ⟨Or.inr rfl, by decide, hprefix "<?=" rfl (startsWith_iff.mp h₂)⟩
  · cases h
    exact ⟨Or.inl rfl, by decide, hprefix "<?" rfl ht⟩

theorem seam_line : ∀ t : Text,
    Seam t ((t.takeWhile (· != 0x0A)).length + if t.contains 0x0A then 1 else 0)
  | [] => Or.inl rfl
  | b :: t => by
    by_cases hb : b = 0x0A
    · subst hb
      rw [List.takeWhile_cons_of_neg (by decide), if_pos (by simp)]
      exact .behind (by decide)
    · rw [List.takeWhile_cons_of_pos (by simpa using hb), List.length_cons, Nat.add_right_comm]
      have hc : (b :: t).contains 0x0A = t.contains 0x0A := by simp [Ne.symm hb]
      rw [hc]
      exact (seam_line t).cons

theorem seam_interpreterLength {t : Text} (h : interpreterLength t ≠ 0) : Seam t (interpreterLength t) := by
  unfold interpreterLength at h ⊢
  split
  · exact seam_line t
  · next hs => exact absurd (if_neg hs) h

end Polyfill.Source
