import Polyfill.Proofs.Edit.WholeLines
import Polyfill.Proofs.Text.Encoding

/-! # What widening to whole lines takes

`expandToLine` adds indentation in front of a range and blanks and line feeds behind it, nothing else. So a
byte of another kind, be it in front of the range or behind it, is never passed: this keeps the deletions of
a file apart.

* `expandToLine_widens`: all that later proofs need of the widened range.
* `Widens.stop_le_of_byte`, `Widens.lt_start_of_byte`: what stops the widening; ink does so on both sides.
* `Widens.apart`, `Widens.apart_of_bytes`, `Widens.apart_of_solid`: ranges that ink parts, or that end with no
  indentation and start with no blank, stay apart when each of them is widened.
* `expandToLine_apart`: the last of these for the ranges themselves. -/

namespace Polyfill

open Source Text

theorem isCodeBlank_of_isLineSpace {b : UInt8} (h : isLineSpace b = true) : isCodeBlank b = true := by
  simp only [isLineSpace, isLineBlank, isIndent, Bool.or_eq_true, beq_iff_eq] at h
  rcases h with ((rfl | rfl) | rfl) | rfl <;> decide

/-- The range from `a` to `z` is the range from `s` to `e`, widened over blanks. -/
structure Widens (source : Text) (s e a z : ℕ) : Prop where
  start_le : a ≤ s
  le_stop : e ≤ z
  stop_le : z ≤ source.length
  before : ∀ i, a ≤ i → i < s → ∃ b, source[i]? = some b ∧ isIndent b = true
  after : ∀ i, e ≤ i → i < z → ∃ b, source[i]? = some b ∧ isLineSpace b = true
  lineStart : a = s ∨ a = 0 ∨ source[a - 1]? = some 0x0A
  lineEnd : z = e ∨ z = source.length ∨ source[z - 1]? = some 0x0A

theorem Widens.refl {source : Text} {s e : ℕ} (h : e ≤ source.length) : Widens source s e s e where
  start_le := le_rfl
  le_stop := le_rfl
  stop_le := h
  before := Only.refl _ _ _
  after := Only.refl _ _ _
  lineStart := Or.inl rfl
  lineEnd := Or.inl rfl

theorem Alone.widens {source : Text} {s e a z n : ℕ} (h : Alone source s e a z) (hn : LinesEnd source a z n) :
    Widens source s e a n where
  start_le := h.start_le
  le_stop := h.le_stop.trans hn.le
  stop_le := hn.le_length
  before := h.before
  after := (h.after.mono fun _ => isLineSpace_of_isLineBlank).append hn.only
  lineStart := Or.inr h.startsLine
  lineEnd := Or.inr hn.feed_or_eq.symm

/-- **Widening takes indentation in front and blanks and line feeds behind.** -/
theorem expandToLine_widens {source : Text} {s e : ℕ} (hs : s ≤ e) (he : e ≤ source.length) :
    Widens source s e (expandToLine source s e).1 (expandToLine source s e).2 := by
  rcases expandToLine_cases (hs.trans he) he with ⟨a, z, n, h, hn, heq⟩ | ⟨-, heq⟩
  · rw [heq]
    exact h.widens hn
  · rw [heq]
    exact .refl he

/-! ### What stops the widening -/

theorem isIndent_eq_false {b : UInt8} (h : isLineSpace b = false) : isIndent b = false := by
  rw [Bool.eq_false_iff] at h ⊢
  exact fun hi => h (isLineSpace_of_isIndent hi)

theorem exists_byte_of_ink {t : Text} {i : ℕ} : Ink t i → ∃ b, t[i]? = some b ∧ isLineSpace b = false := by
  rintro ⟨b, hb, hc⟩
  refine ⟨b, hb, Bool.eq_false_iff.mpr fun hs => ?_⟩
  rw [isCodeBlank_of_isLineSpace hs] at hc
  cases hc

theorem isBoundary_of_lineFeed {t : Text} {i : ℕ} (hv : Encoded t) (hb : t[i - 1]? = some 0x0A)
    (hi : i ≤ t.length) : t.isBoundary i = true := by
  rcases Nat.eq_zero_or_pos i with rfl | hpos
  · exact (Cuts.zero hv).isBoundary hi
  · have := (cuts_behind hv hb (by decide)).isBoundary (by omega)
    rwa [Nat.sub_add_cancel hpos] at this

namespace Widens

variable {source : Text} {s e a z k : ℕ} {b : UInt8}

/-- A byte behind a range that can stand in no blank line stops the widening. -/
theorem stop_le_of_byte (h : Widens source s e a z) (hk : e ≤ k) (hb : source[k]? = some b)
    (hs : isLineSpace b = false) : z ≤ k := by
  by_contra hc
  obtain ⟨b', hb', hs'⟩ := h.after k hk (by omega)
  rw [hb] at hb'
  cases hb'
  rw [hs] at hs'
  cases hs'

/-- A byte in front of a range that is no indentation stops the widening. -/
theorem lt_start_of_byte (h : Widens source s e a z) (hk : k < s) (hb : source[k]? = some b)
    (hi : isIndent b = false) : k < a := by
  by_contra hc
  obtain ⟨b', hb', hi'⟩ := h.before k (by omega) hk
  rw [hb] at hb'
  cases hb'
  rw [hi] at hi'
  cases hi'

theorem stop_le_of_ink (h : Widens source s e a z) (hk : e ≤ k) (hi : Ink source k) : z ≤ k := by
  obtain ⟨b, hb, hs⟩ := exists_byte_of_ink hi
  exact h.stop_le_of_byte hk hb hs

theorem lt_start_of_ink (h : Widens source s e a z) (hk : k < s) (hi : Ink source k) : k < a := by
  obtain ⟨b, hb, hs⟩ := exists_byte_of_ink hi
  exact h.lt_start_of_byte hk hb (isIndent_eq_false hs)

theorem blankAt (h : Widens source s e a z) {i : ℕ} (ha : a ≤ i) (hz : i < z) (ho : i < s ∨ e ≤ i) :
    BlankAt source i := by
  rcases ho with hs | he
  · obtain ⟨b, hb, hi⟩ := h.before i ha hs
    exact .of_isCodeBlank hb (isCodeBlank_of_isLineSpace (isLineSpace_of_isIndent hi))
  · obtain ⟨b, hb, hi⟩ := h.after i he hz
    exact .of_isCodeBlank hb (isCodeBlank_of_isLineSpace hi)

theorem isBoundary (h : Widens source s e a z) (hv : Encoded source) (hse : s ≤ e)
    (hs : source.isBoundary s = true) (he : source.isBoundary e = true) :
    source.isBoundary a = true ∧ source.isBoundary z = true := by
  have hz := h.stop_le
  have ha := h.start_le
  have hez := h.le_stop
  constructor
  · rcases h.lineStart with rfl | rfl | hb
    · exact hs
    · exact (Cuts.zero hv).isBoundary (Nat.zero_le _)
    · exact isBoundary_of_lineFeed hv hb (by omega)
  · rcases h.lineEnd with rfl | rfl | hb
    · exact he
    · exact (Cuts.end_of_le hv le_rfl).isBoundary le_rfl
    · exact isBoundary_of_lineFeed hv hb hz

end Widens

/-- Ranges that ink parts stay apart when each of them is widened. -/
theorem Widens.apart {source : Text} {s e a z s' e' a' z' k : ℕ} (h : Widens source s e a z)
    (h' : Widens source s' e' a' z') (hk : e ≤ k) (hk' : k < s') (hi : Ink source k) : z ≤ a' := by
  have := h.stop_le_of_ink hk hi
  have := h'.lt_start_of_ink hk' hi
  omega

/-- Ranges stay apart when each of them is widened, if the first one ends with no indentation and the second one
starts with no blank: the line that the first one takes whole is none that the second one starts on. -/
theorem Widens.apart_of_bytes {source : Text} {s e a z s' e' a' z' : ℕ} {b b' : UInt8} (h : Widens source s e a z)
    (h' : Widens source s' e' a' z') (hse : s < e) (he : e ≤ s') (hb : source[e - 1]? = some b)
    (hb' : source[s']? = some b') (hlast : isIndent b = false) (hfirst : isLineSpace b' = false) : z ≤ a' := by
  have hz := h.stop_le_of_byte he hb' hfirst
  have ha := h'.lt_start_of_byte (by omega) hb hlast
  by_contra hc
  rcases h.lineEnd with rfl | rfl | hfeed
  · omega
  · have := (List.getElem?_eq_some_iff.mp hb').1
    omega
  · -- The line feed at the end of the first range would be indentation of the second.
    have := h'.lt_start_of_byte (by omega) hfeed (by decide)
    omega

/-- **Ranges that start and end with ink stay apart when each of them is widened**, even if only blanks
part them. -/
theorem Widens.apart_of_solid {source : Text} {s e a z s' e' a' z' : ℕ} (h : Widens source s e a z)
    (h' : Widens source s' e' a' z') (hse : s < e) (he : e ≤ s') (hl : Ink source (e - 1))
    (hf : Ink source s') : z ≤ a' := by
  obtain ⟨b, hb, hlast⟩ := exists_byte_of_ink hl
  obtain ⟨b', hb', hfirst⟩ := exists_byte_of_ink hf
  exact h.apart_of_bytes h' hse he hb hb' (isIndent_eq_false hlast) hfirst

/-- **Two ranges stay apart when each is widened on its own**, if the first one does not end with a space or a tab
and the second one does not start with a space, a tab, a carriage return or a line feed. -/
theorem expandToLine_apart {source : Text} {s e s' e' : ℕ} (hse : s < e) (he : e ≤ s') (hse' : s' < e')
    (he' : e' ≤ source.length) (hlast : ∀ b, source[e - 1]? = some b → b ≠ 0x20 ∧ b ≠ 0x09)
    (hfirst : ∀ b, source[s']? = some b → b ≠ 0x20 ∧ b ≠ 0x09 ∧ b ≠ 0x0D ∧ b ≠ 0x0A) :
    (expandToLine source s e).2 ≤ (expandToLine source s' e').1 := by
  have hw := expandToLine_widens hse.le (he.trans (hse'.le.trans he'))
  have hw' := expandToLine_widens hse'.le he'
  have hb := List.getElem?_eq_getElem (l := source) (i := e - 1) (by omega)
  have hb' := List.getElem?_eq_getElem (l := source) (i := s') (by omega)
  refine hw.apart_of_bytes hw' hse he hb hb' ?_ ?_
  · obtain ⟨h₁, h₂⟩ := hlast _ hb
    simp [isIndent, h₁, h₂]
  · obtain ⟨h₁, h₂, h₃, h₄⟩ := hfirst _ hb'
    simp [isLineSpace, isLineBlank, isIndent, h₁, h₂, h₃, h₄]

-- The second range would take the indentation at the end of the first.
example :
    let source := Text.ofString "x\n y"
    (expandToLine source 1 3).2 = 3 ∧ (expandToLine source 3 4).1 = 2 := by
  decide

/-- Two ranges on lines of their own, with a blank line in front of the first, between them, and behind. -/
theorem expandToLine_apart_sample :
    let source := Text.ofString "\n\ta;\x0D\n \n  b;\n\n"
    (2 : ℕ) < 4 ∧ 4 ≤ 10 ∧ 10 < 12 ∧ 12 ≤ source.length ∧ expandToLine source 2 4 = (1, 8) ∧
      (expandToLine source 2 4).2 ≤ (expandToLine source 10 12).1 := by
  intro source
  have hlast : ∀ b, source[4 - 1]? = some b → b ≠ 0x20 ∧ b ≠ 0x09 := by
    rintro _ ⟨⟩
    decide
  have hfirst : ∀ b, source[10]? = some b → b ≠ 0x20 ∧ b ≠ 0x09 ∧ b ≠ 0x0D ∧ b ≠ 0x0A := by
    rintro _ ⟨⟩
    decide
  exact ⟨by decide, by decide, by decide, by decide, by decide,
    expandToLine_apart (by decide) (by decide) (by decide) (by decide) hlast hfirst⟩

end Polyfill
