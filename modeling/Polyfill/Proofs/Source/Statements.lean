import Polyfill.Proofs.Source.Expressions
import Polyfill.Source.Grammar.Statements

/-! # What statements are read from

A statement lies where its tokens stand, and what is inside it lies in it. A text outside the code is a
statement of its own; any other statement starts with ink, and ends with an ASCII byte that is no blank unless
there is nothing behind it.

* `StmtRead`: what is known of a statement that has been read.
* `listLaid_of_chain`, `declaredLaid_of_chain`: statements in a row lie well.
* one lemma for each rule of the grammar: what it reads lies well if the statements in it do. -/

namespace Polyfill.Source

open Text Scan Source.Parser

/-- A statement that has been read between two cursors. -/
structure StmtRead (source : Text) (c : Cursor) (s : Stmt) (c' : Cursor) : Prop where
  start : c.last ≤ s.span.start
  token : InToken source s.span.start
  stop : s.span.stop = c'.last
  placed : Placed source s.span
  laid : s.Laid source
  declared : s.DeclaredLaid source
  reads : ∃ ts, c.Reads ts c'
  visible : ¬ c.AtEnd
  tag : c.front = some .openTag ∨ c.front = some .echoTag → s.IsTag source
  text : c.front = some .inlineText → s.IsText source ∧ ∃ t, c.Reads [t] c'
  code : c.front ≠ some .inlineText → Closes source c c' ∧ (Dark source (s.span.stop - 1) → Sealed source s.span)

/-! ### Statements in a row -/

/-- Tokens of the kind can end a list of statements: signs and words. -/
def TokenKind.endsList : TokenKind → Bool
  | .sign _ | .word _ => true
  | _ => false

section Chains

variable {source : Text} (hv : Encoded source)
include hv

/-- What comes behind a statement in a row: behind a text comes a tag, or more text at the start of a file. -/
theorem StmtRead.next {c c' : Cursor} {s : Stmt} (hc : c.On source) (h : StmtRead source c s c') (hend : ¬ c'.AtEnd) :
    Sealed source s.span ∨ s.IsText source ∧ (c'.front = some .openTag ∨ c'.front = some .echoTag ∨
      c.last = 0 ∧ c'.front = some .inlineText) := by
  by_cases htext : c.front = some .inlineText
  · obtain ⟨hs, t, ht⟩ := h.text htext
    have hk : t.kind = .inlineText := by simpa [ht.front] using htext
    refine Or.inr ⟨hs, ?_⟩
    rcases hc.front_behind_text hv ht hk with h' | h' | h' | ⟨h₀, h'⟩
    · exact absurd h' hend
    · exact Or.inl h'
    · exact Or.inr (Or.inl h')
    · have := (hc.token hv ht).2.1
      exact Or.inr (Or.inr ⟨by omega, h'⟩)
  · obtain ⟨hclose, hsealed⟩ := h.code htext
    refine Or.inl (hsealed ?_)
    rw [h.stop]
    exact hclose.ends.resolve_right hend

/-- **Statements that have been read one after the other lie well**, up to a token that ends the list. -/
theorem listLaid_of_chain {c' : Cursor} (hend : ∃ k, c'.front = some k ∧ k.endsList = true) :
    ∀ {ss : List Stmt} {c : Cursor}, c.On source → CodeBefore source c.last → Chain (StmtRead source) c ss c' →
      listLaid source c.last c'.last ss
  | [], c, _, _, h => by
    have h' : c = c' := h
    rw [listLaid_nil, h']
  | s :: ss, c, hc, hcode, ⟨c₁, hs, h⟩ => by
    obtain ⟨ts, hts⟩ := hs.reads
    have hc₁ := hc.reads hts
    have hstart := hcode.mono hs.start
    have ih := listLaid_of_chain hend hc₁ (hcode.mono (hc.le hv hts)) h
    rw [listLaid_cons, hs.stop]
    refine ⟨hs.start, hs.laid, ih, ?_, hs.token⟩
    cases ss with
    | nil =>
      have h' : c₁ = c' := h
      obtain ⟨k, hk, hends⟩ := hend
      rw [← h'] at hk
      have hvisible : ¬ c₁.AtEnd := by
        rw [Cursor.AtEnd, hk]
        rintro (h | h) <;> cases h
        cases hends
      rcases hs.next hv hc hvisible with h | ⟨-, h | h | ⟨-, h⟩⟩
      · exact Or.inl h
      all_goals
        rw [hk] at h
        cases h
        cases hends
    | cons n ss =>
      obtain ⟨c₂, hn, -⟩ := h
      rcases hs.next hv hc hn.visible with h | ⟨htext, h | h | ⟨h₀, -⟩⟩
      · exact Or.inl h
      · exact Or.inr ⟨htext, hstart, n, rfl, hn.tag (Or.inl h)⟩
      · exact Or.inr ⟨htext, hstart, n, rfl, hn.tag (Or.inr h)⟩
      · obtain ⟨_, _, _, _, hlt⟩ := hcode
        omega

/-- **Statements that have been read one after the other are well declared.** -/
theorem declaredLaid_of_chain {c' : Cursor} {hi : ℕ} (hhi : c'.last ≤ hi) :
    ∀ {ss : List Stmt} {c : Cursor}, c.On source → Chain (StmtRead source) c ss c' →
      declaredLaid source c.last hi ss
  | [], c, _, h => by
    have h' : c = c' := h
    rwa [declaredLaid, h']
  | s :: ss, c, hc, ⟨c₁, hs, h⟩ => by
    obtain ⟨ts, hts⟩ := hs.reads
    have ih := declaredLaid_of_chain hhi (hc.reads hts) h
    rw [declaredLaid, hs.stop]
    refine ⟨hs.start, hs.declared, ih, ?_⟩
    cases ss with
    | nil => exact Or.inr (by simp)
    | cons n ss =>
      obtain ⟨c₂, hn, -⟩ := h
      rcases hs.next hv hc hn.visible with h | ⟨-, h | h | ⟨-, h⟩⟩
      · rw [← hs.stop]
        exact Or.inl h.last
      · exact Or.inr fun x hx => by cases hx; exact Or.inl (hn.tag (Or.inl h))
      · exact Or.inr fun x hx => by cases hx; exact Or.inl (hn.tag (Or.inr h))
      · exact Or.inr fun x hx => by cases hx; exact Or.inr (hn.text h).1

end Chains

namespace Grammar

section Rules

variable {source : Text} (hv : Encoded source) {g : Rules}
  (hg : ∀ {c s c'}, c.On source → g.statement.run c = some (s, c') → StmtRead source c s c')
include hv hg

/-! ### Blocks and bodies -/

omit hv in
theorem statements_read {stop : TokenKind → Bool} {c c' : Cursor} {ss : List Stmt} (hc : c.On source)
    (h : (manyUntil stop g.statement).run c = some (ss, c')) :
    Chain (StmtRead source) c ss c' ∧ ∃ k, c'.front = some k ∧ stop k = true := by
  obtain ⟨hchain, hk⟩ := run_manyUntil_eq_some h
  refine ⟨(hchain.mono (fun hc hr => ?_) hc).1, hk⟩
  obtain ⟨ts, hts⟩ := Parser.reads _ hr
  exact ⟨hg hc hr, hc.reads hts⟩

omit hv in
theorem block_chain {c c' : Cursor} {b : Block} (hc : c.On source) (h : (block g).run c = some (b, c')) :
    ∃ o z c₁ c₂ ts ss, c.Reads [o] c₁ ∧ o.kind = .sign "\x7b" ∧ c₁.Reads ts c₂ ∧ Chain (StmtRead source) c₁ ss c₂ ∧
      c₂.Reads [z] c' ∧ z.kind = .sign "\x7d" ∧ b = .mk ⟨o.start, o.stop⟩ ⟨z.start, z.stop⟩ ss := by
  obtain ⟨o, c₁, h₁, h⟩ := run_bind_eq_some.mp h
  obtain ⟨ss, c₂, h₂, h⟩ := run_bind_eq_some.mp h
  obtain ⟨z, c₃, h₃, h⟩ := run_bind_eq_some.mp h
  obtain ⟨rfl, rfl⟩ := run_pure_eq_some.mp h
  obtain ⟨ho, hok⟩ := run_take_eq_some.mp h₁
  obtain ⟨hz, hzk⟩ := run_take_eq_some.mp h₃
  have hc₁ := hc.reads ho
  obtain ⟨ts, hts⟩ := Parser.reads _ h₂
  exact ⟨o, z, c₁, c₂, ts, ss, ho, hok, hts, (statements_read hg hc₁ h₂).1, hz, hzk, rfl⟩

/-- **A block that has been read lies well.** -/
theorem block_read {c c' : Cursor} {b : Block} (hc : c.On source) (h : (block g).run c = some (b, c')) :
    b.Laid source ∧ b.place.start = c.start ∧ c.last ≤ b.place.start ∧ b.place.stop = c'.last ∧ Closes source c c' := by
  obtain ⟨o, z, c₁, c₂, ts, ss, ho, hok, hts, hchain, hz, hzk, rfl⟩ := block_chain hg hc h
  have hc₂ := (hc.reads ho).reads hts
  obtain ⟨hos, hole, -⟩ := hc.token hv ho
  obtain ⟨hzs, hzle, -⟩ := hc₂.token hv hz
  have hsolid := hos.solid_of_sign hok
  have hcode := hc.codeBefore hv ho (by rw [hok]; rfl)
  have hlist := listLaid_of_chain hv ⟨_, hz.front, by rw [hzk]; rfl⟩ (hc.reads ho) hcode hchain
  refine ⟨?_, ho.start.symm, hole, hz.last.symm, .prepend (ho.trans hts) (hc₂.shuts_sign hv hz hzk).closes⟩
  rw [Block.Laid]
  refine ⟨hok ▸ hc.tokenAt ho, hsolid, hzs.solid_of_sign hzk, ?_, (hos.identAt_of_sign hok).2,
    (hzs.identAt_of_sign hzk).1⟩
  exact hlist.mono (by rw [ho.last]; rfl) hzle

end Rules

end Grammar

end Polyfill.Source
