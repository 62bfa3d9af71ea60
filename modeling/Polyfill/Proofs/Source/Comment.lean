import Polyfill.Proofs.Source.Layout
import Polyfill.Proofs.Source.Lexeme

/-! # Comments

A comment stands between tokens, starts with a slash or a hash, and either ends with a slash or holds no line
feed.

* `IsComment`: the range is that of a comment.
* `IsComment.first`, `IsComment.ends`: how comments are written. -/

namespace Polyfill.Source

open Text

/-- How what is passed over is written if it does not start with a blank. -/
theorem trivia?_comment {b : UInt8} {t : Text} {n : ℕ} (h : trivia? (b :: t) = some n) (hn : 0 < n)
    (hb : isCodeBlank b = false) : (b = 0x2F ∨ b = 0x23) ∧
      ((∀ i < n, (b :: t)[i]? ≠ some 0x0A) ∨ (b :: t)[n - 1]? = some 0x2F) := by
  have head : ∀ {s : String} {c : UInt8} (rest : Text), Text.ofString s = c :: rest →
      Text.startsWith (b :: t) s = true → b = c := by
    intro s c rest hs h
    rw [startsWith_iff, hs, List.cons_prefix_cons] at h
    exact h.1.symm
  unfold trivia? at h
  split_ifs at h with h₁ h₂ h₃ h₄
  · rw [headIs, hb] at h₁
    cases h₁
  · cases h
    exact ⟨Or.inl (head [0x2F] (by decide) h₂), Or.inl fun _ => ne_lineFeed_of_lt_lineCommentLength _⟩
  · cases h
    rw [Bool.and_eq_true] at h₃
    exact ⟨Or.inr (head [] (by decide) h₃.1), Or.inl fun _ => ne_lineFeed_of_lt_lineCommentLength _⟩
  · exact ⟨Or.inl (head [0x2A] (by decide) h₄), Or.inr (last_blockCommentLength? h).2⟩
  · cases h
    omega

section Tokens

variable [SourceParser]

/-- The range is that of a comment: the code reads as one there, up to an offset at which it may end, and no
byte of it belongs to a token. -/
structure IsComment (source : Text) (s : Span) : Prop where
  lt : s.start < s.stop
  le : s.stop ≤ source.length
  ink : Ink source s.start
  reads : ∃ stop, trivia? (source.slice s.start stop) = some (s.stop - s.start)
  free : ∀ i, s.start ≤ i → i < s.stop → ¬ InToken source i

namespace IsComment

variable {source : Text} {s : Span}

/-- The bytes of a comment as they are read. -/
theorem exists_text (h : IsComment source s) : ∃ b t, trivia? (b :: t) = some (s.stop - s.start) ∧
    isCodeBlank b = false ∧ ∀ i, s.start ≤ i → i < s.stop → source[i]? = (b :: t)[i - s.start]? := by
  obtain ⟨stop, hr⟩ := h.reads
  obtain ⟨b, hb, hc⟩ := h.ink
  have hlt := h.lt
  have hle := (edge_trivia? hr (by omega)).le
  have hlen : (source.slice s.start stop).length ≤ stop - s.start := List.length_take_le _ _
  have hbyte : ∀ i, s.start ≤ i → i < s.stop → source[i]? = (source.slice s.start stop)[i - s.start]? := by
    intro i hi hi'
    rw [getElem?_slice, if_pos (by omega), Nat.add_sub_cancel' hi]
  cases ht : source.slice s.start stop with
  | nil =>
    rw [ht] at hle
    simp only [List.length_nil] at hle
    omega
  | cons x t =>
    rw [ht] at hr hbyte
    have hx := hbyte s.start le_rfl hlt
    rw [hb, Nat.sub_self] at hx
    cases hx
    exact ⟨b, t, hr, hc, hbyte⟩

/-- A comment starts with a slash or a hash. -/
theorem first (h : IsComment source s) : ∃ b, source[s.start]? = some b ∧ (b = 0x2F ∨ b = 0x23) := by
  obtain ⟨b, t, hr, hc, hbyte⟩ := h.exists_text
  have hlt := h.lt
  refine ⟨b, ?_, (trivia?_comment hr (by omega) hc).1⟩
  rw [hbyte s.start le_rfl hlt, Nat.sub_self]
  rfl

theorem dark (h : IsComment source s) : Dark source s.start := by
  obtain ⟨b, hb, rfl | rfl⟩ := h.first
  · exact ⟨_, hb, by decide, by decide⟩
  · exact ⟨_, hb, by decide, by decide⟩

/-- A comment holds no line feed, or it ends with a slash. -/
theorem ends (h : IsComment source s) :
    (∀ i, s.start ≤ i → i < s.stop → source[i]? ≠ some 0x0A) ∨ Dark source (s.stop - 1) := by
  obtain ⟨b, t, hr, hc, hbyte⟩ := h.exists_text
  have hlt := h.lt
  refine (trivia?_comment hr (by omega) hc).2.imp (fun hline i hi hi' => ?_) fun hlast => ?_
  · rw [hbyte i hi hi']
    exact hline _ (by omega)
  · refine ⟨0x2F, ?_, by decide, by decide⟩
    rw [hbyte _ (by omega) (by omega), ← hlast]
    congr 1
    omega

end IsComment

end Tokens

end Polyfill.Source
