import Polyfill.Proofs.Source.Declarations
import Polyfill.Source.Parse

/-! # The tree of a file lies well in it

Every statement that the grammar reads from the tokens of a valid file lies well, by induction on how deep rules
are nested. So does the whole file.

* `statement_read`: a statement lies well if those in it do.
* `ofFuel_read`: so all statements lie well.
* `tree?_declaredLaid`: the tree of a valid file lies well in it. -/

namespace Polyfill.Source

open Text Scan Source.Parser

theorem Token.Sound.marked_of_word {source : Text} {t : Token} (h : t.Sound source) {w : String}
    (hk : t.kind = .word w) (hw : w.toList.head?.any Char.isLower = true) {p : Span} (hp : p.start ≤ t.start)
    (hp' : t.stop ≤ p.stop) : Marked source p := by
  have hs := h.spelled
  rw [hk] at hs
  obtain ⟨hstem, -, rfl⟩ := hs
  obtain ⟨b, rest, hrest⟩ := List.exists_cons_of_ne_nil hstem.ne_nil
  have key : ∀ b : UInt8, (Char.ofNat (lowerByte b).toNat).isLower = true →
      b < 0x80 ∧ isCodeBlank b = false ∧ b ≠ 0x3B := forall_byte (by decide +kernel)
  rw [hrest, spelling, String.toList_ofList, Text.lower, List.map_cons, List.map_cons, List.head?_cons,
    Option.any_some] at hw
  obtain ⟨hlt, hblank, hsemi⟩ := key b hw
  exact h.marked hrest hlt hblank hsemi hp hp'

namespace Grammar

section Rules

variable {source : Text} (hv : Encoded source) {g : Rules}
  (hg : ∀ {c s c'}, c.On source → g.statement.run c = some (s, c') → StmtRead source c s c')
  (hx : ∀ {level c e c'}, (g.expr level).run c = some (e, c') →
    (∃ k, c.front = some k ∧ startsOperand k = true) ∧ (e.IsCandidate → SignRead c c'))
include hv hg hx

omit hv hg hx in
theorem isLower_of_controlParts {w : String} {p : Parser (List Expr × List Body)}
    (h : controlParts g w = some p) : w.toList.head?.any Char.isLower = true := by
  unfold controlParts at h
  split at h
  case h_8 => cases h
  all_goals decide

omit hx in
theorem controlStatement_read {c c' : Cursor} {w : String} {p : Parser (List Expr × List Body)} {s : Stmt}
    (hc : c.On source) (hw : c.front = some (.word w)) (hp : controlParts g w = some p)
    (h : (do
      let _ ← next
      let (heads, bodies) ← p
      return .control (← spanFrom c.start) heads bodies : Parser Stmt).run c = some (s, c')) :
    DeclRead source c.start c s c' := by
  obtain ⟨t, c₁, h₁, h⟩ := run_bind_eq_some.mp h
  obtain ⟨⟨es, bs⟩, c₂, h₂, h⟩ := run_bind_eq_some.mp h
  obtain ⟨span, c₃, h₃, h⟩ := run_bind_eq_some.mp h
  obtain ⟨rfl, rfl⟩ := run_spanFrom_eq_some h₃
  obtain ⟨rfl, rfl⟩ := run_pure_eq_some.mp h
  have ht := run_next_eq_some.mp h₁
  have hk : t.kind = .word w := by simpa [ht.front] using hw
  have hc₁ := hc.inCode_word hv ht hk
  obtain ⟨hbodies, hclose⟩ := controlParts_read hv hg hp hc₁ h₂
  obtain ⟨hts, -, hle⟩ := hc.token hv ht
  have hle' := (hc₁.on.run hv h₂).2
  have : t.start ≤ t.stop := Nat.le_add_right _ _
  refine .of_isPlain (.prepend ht hclose) rfl rfl ?_
  rw [Stmt.Laid]
  refine ⟨hts.marked_of_word hk (isLower_of_controlParts hp) ht.start.le (hle.trans hle'), ?_⟩
  refine hbodies.mono ?_ le_rfl
  rw [show (Span.mk c.start c₂.last).start = t.start from ht.start]
  omega

omit hg hx in
/-- A token with expressions behind it and a terminator. -/
theorem simpleStatement_read {α : Type} {start : ℕ} {c c' : Cursor} {p : Parser α} {s : Stmt} (hc : c.On source)
    (parts : α → List Expr) (h : (do
      let _ ← next
      let a ← p
      terminator
      return .other (← spanFrom start) (parts a) [] : Parser Stmt).run c = some (s, c')) :
    (∃ es, s = .other ⟨start, c'.last⟩ es []) ∧ Shuts source c c' ∧ DeclRead source start c s c' := by
  obtain ⟨t, c₁, h₁, h⟩ := run_bind_eq_some.mp h
  obtain ⟨a, c₂, h₂, h⟩ := run_bind_eq_some.mp h
  obtain ⟨u, c₃, h₃, h⟩ := run_bind_eq_some.mp h
  obtain ⟨span, c₄, h₄, h⟩ := run_bind_eq_some.mp h
  obtain ⟨rfl, rfl⟩ := run_spanFrom_eq_some h₄
  obtain ⟨rfl, rfl⟩ := run_pure_eq_some.mp h
  obtain ⟨ts₁, hts₁⟩ := Parser.reads _ h₁
  obtain ⟨ts₂, hts₂⟩ := Parser.reads _ h₂
  have hts := hts₁.trans hts₂
  have hshuts := Shuts.prepend hts ((hc.reads hts).shuts_terminator hv h₃)
  exact ⟨⟨_, rfl⟩, hshuts, .of_isPlain hshuts.closes rfl rfl trivial⟩

theorem wordStatement_read {c c' : Cursor} {w : String} {s : Stmt} (hc : c.On source) (hw : c.front = some (.word w))
    (h : (wordStatement g c.start w).run c = some (s, c')) : DeclRead source c.start c s c' := by
  unfold wordStatement at h
  split at h
  · next p hp => exact controlStatement_read hv hg hc hw hp h
  split at h
  · exact (simpleStatement_read hv hc id h).2.2
  obtain ⟨after, c₁, h₁, h⟩ := run_bind_eq_some.mp h
  obtain ⟨hafter, rfl⟩ := run_kindAt_eq_some.mp h₁
  split at h
  · obtain ⟨t, c₁, h₁, h⟩ := run_bind_eq_some.mp h
    obtain ⟨⟨ident, ss⟩, c₂, h₂, h⟩ := run_bind_eq_some.mp h
    obtain ⟨span, c₃, h₃, h⟩ := run_bind_eq_some.mp h
    obtain ⟨rfl, rfl⟩ := run_spanFrom_eq_some h₃
    obtain ⟨rfl, rfl⟩ := run_pure_eq_some.mp h
    have ht := run_next_eq_some.mp h₁
    rw [ht.front, Option.some.injEq] at hw
    obtain ⟨⟨mid, hmid, hident, hss⟩, hclose⟩ := namespaceParts_read hv hg hc ht (Or.inr ⟨_, hw⟩) h₂
    have hle : c.start ≤ c₁.last := by
      have := (hc.token hv ht).2.2
      have : t.start ≤ t.stop := Nat.le_add_right _ _
      rw [ht.start]
      omega
    refine ⟨.prepend ht hclose, rfl, trivial, fun _ _ _ _ => ?_⟩
    rw [Stmt.DeclaredLaid]
    refine ⟨mid, hle.trans hmid, fun i hi => ?_, hss⟩
    obtain ⟨hnamed, hlo, hhi⟩ := hident i hi
    exact ⟨hnamed, hle.trans hlo, hhi⟩
  · obtain ⟨t, c₁, h₁, h⟩ := run_bind_eq_some.mp h
    obtain ⟨imports, c₂, h₂, h⟩ := run_bind_eq_some.mp h
    obtain ⟨span, c₃, h₃, h⟩ := run_bind_eq_some.mp h
    obtain ⟨rfl, rfl⟩ := run_spanFrom_eq_some h₃
    obtain ⟨rfl, rfl⟩ := run_pure_eq_some.mp h
    obtain ⟨ts, hts⟩ := Parser.reads _ h₁
    have hshuts := importParts_read hv (hc.reads hts) h₂
    refine ⟨.prepend hts hshuts.closes, rfl, trivial, fun _ _ hd _ => ?_⟩
    rw [Stmt.DeclaredLaid]
    exact hd hshuts.dark
  · obtain ⟨t, c₁, h₁, h⟩ := run_bind_eq_some.mp h
    obtain ⟨⟨values, ss⟩, c₂, h₂, h⟩ := run_bind_eq_some.mp h
    obtain ⟨span, c₃, h₃, h⟩ := run_bind_eq_some.mp h
    obtain ⟨rfl, rfl⟩ := run_spanFrom_eq_some h₃
    obtain ⟨rfl, rfl⟩ := run_pure_eq_some.mp h
    obtain ⟨ts, hts⟩ := Parser.reads _ h₁
    exact .of_isPlain (.prepend hts (declareParts_read hv hg (hc.reads hts) h₂)) rfl rfl trivial
  · exact (simpleStatement_read hv hc List.flatten h).2.2
  · obtain ⟨o, c₂, h₂, h⟩ := run_bind_eq_some.mp h
    rcases declaration_read hv hg hc h₂ with ⟨rfl, rfl⟩ | ⟨s', rfl, hs'⟩
    · dsimp only at h
      split at h
      · next hcolon =>
        obtain ⟨t₁, c₃, h₃, h⟩ := run_bind_eq_some.mp h
        obtain ⟨t₂, c₄, h₄, h⟩ := run_bind_eq_some.mp h
        obtain ⟨span, c₅, h₅, h⟩ := run_bind_eq_some.mp h
        obtain ⟨rfl, rfl⟩ := run_spanFrom_eq_some h₅
        obtain ⟨rfl, rfl⟩ := run_pure_eq_some.mp h
        have ht₁ := run_next_eq_some.mp h₃
        have ht₂ := run_next_eq_some.mp h₄
        have hk : t₂.kind = .sign ":" := by
          rw [beq_iff_eq, ← hafter, ht₁.tokens, ht₂.tokens] at hcolon
          exact Option.some.inj hcolon
        exact .of_isPlain (.prepend ht₁ ((hc.reads ht₁).shuts_sign hv ht₂ hk).closes) rfl rfl trivial
      · exact (expressionStatement_read hv hc le_rfl hx h).1
    · obtain ⟨rfl, rfl⟩ := run_pure_eq_some.mp h
      exact hs'

omit hx in
theorem attributedStatement_read {c c' : Cursor} {s : Stmt} (hc : c.On source)
    (h : (attributedStatement g c.start).run c = some (s, c')) : DeclRead source c.start c s c' := by
  obtain ⟨attrs, c₁, h₁, h⟩ := run_bind_eq_some.mp h
  obtain ⟨o, c₂, h₂, h⟩ := run_bind_eq_some.mp h
  obtain ⟨ts, hts⟩ := Parser.reads _ h₁
  have hc₁ := hc.reads hts
  refine .prepend hts (hc.start_mono hv hts) ?_
  rcases declaration_read hv hg hc₁ h₂ with ⟨rfl, rfl⟩ | ⟨s', rfl, hs'⟩
  · exact functionStatement_read hv hc₁ h
  · obtain ⟨rfl, rfl⟩ := run_pure_eq_some.mp h
    exact hs'

omit hg hx in
/-- A statement that starts with a visible token other than a tag that opens code. -/
theorem DeclRead.stmtRead {c c' : Cursor} {s : Stmt} {k : TokenKind} (hc : c.On source) (hk : c.front = some k)
    (hvis : k.isVisible = true) (htag : k = .openTag ∨ k = .echoTag → s.IsTag source)
    (h : DeclRead source c.start c s c') : StmtRead source c s c' := by
  obtain ⟨t, ts, hts⟩ := h.closes.reads
  have htk : t.kind = k := by simpa [hts.front] using hk
  obtain ⟨hs, hlo, hhi⟩ := hc.token hv hts
  obtain ⟨hink, hlt⟩ := hs.ink (htk ▸ hvis)
  have hc' := hc.reads hts
  have hplaced : Placed source s.span := by
    rw [h.span, hts.start]
    exact ⟨show t.start < c'.last by omega, hc'.le_length hv, hs.opens, (hc'.lexed hv).1⟩
  have hfirst : Ink source s.span.start := by
    rw [h.span, hts.start]
    exact hink
  have hsealed : Dark source (s.span.stop - 1) → Sealed source s.span := by
    intro hdark
    refine ⟨⟨hplaced, hfirst, hdark⟩, ?_, fun x hx heq => ?_⟩
    · rw [h.span]
      exact hc.codeBefore hv hts (htk ▸ hvis)
    · rw [h.span, hts.start] at heq ⊢
      exact hc.tag_before_text hv hts (htk ▸ hvis) hx heq
  refine ⟨?_, ?_, ?_, hplaced, h.laid, h.declared hplaced hfirst hsealed le_rfl, ⟨_, hts⟩, ?_, ?_, ?_,
    fun _ => ⟨h.closes, hsealed⟩⟩
  · rw [h.span]
    exact hc.le_start hv
  · rw [h.span, hts.start]
    exact ⟨_, _, hc.tokenAt hts, le_rfl, hlt⟩
  · rw [h.span]
  · rw [Cursor.AtEnd, hk]
    rintro (h | h) <;> cases h
    cases hvis
  · rw [hk]
    simpa using htag
  · rw [hk]
    intro h
    cases h
    cases hvis

omit hv hg hx in
theorem tokenStatement_read {c c' : Cursor} {s : Stmt} (h : (do
      let _ ← next
      return .other (← spanFrom c.start) [] [] : Parser Stmt).run c = some (s, c')) :
    s = .other ⟨c.start, c'.last⟩ [] [] ∧ ∃ t, c.Reads [t] c' := by
  obtain ⟨t, c₁, h₁, h⟩ := run_bind_eq_some.mp h
  obtain ⟨span, c₂, h₂, h⟩ := run_bind_eq_some.mp h
  obtain ⟨rfl, rfl⟩ := run_spanFrom_eq_some h₂
  obtain ⟨rfl, rfl⟩ := run_pure_eq_some.mp h
  exact ⟨rfl, t, run_next_eq_some.mp h₁⟩

omit hg hx in
/-- A text outside the code. -/
theorem textStatement_read {c c' : Cursor} {t : Token} (hc : c.On source) (ht : c.Reads [t] c')
    (hk : t.kind = .inlineText) : StmtRead source c (.other ⟨c.start, c'.last⟩ [] []) c' := by
  obtain ⟨hs, hlo, -⟩ := hc.token hv ht
  have hspan : (⟨c.start, c'.last⟩ : Span) = ⟨t.start, t.stop⟩ := by
    rw [ht.start, ht.last]
    rfl
  have hne : t.text ≠ [] := by
    have := hs.spelled
    rwa [hk] at this
  have hplaced : Placed source ⟨t.start, t.stop⟩ :=
    ⟨Nat.lt_add_of_pos_right (List.length_pos_of_ne_nil hne), hs.le, hs.opens, hs.closes⟩
  have htext : (Stmt.other ⟨t.start, t.stop⟩ [] []).IsText source :=
    ⟨hplaced, hk ▸ hc.tokenAt ht, dark_before_text hv (hk ▸ hc.tokenAt ht)⟩
  have hfront : c.front = some .inlineText := hk ▸ ht.front
  rw [hspan]
  refine ⟨hlo, ⟨_, _, hc.tokenAt ht, le_rfl, hplaced.lt⟩, ht.last.symm, hplaced, trivial, ?_, ⟨_, ht⟩, ?_, ?_,
    fun _ => ⟨htext, t, ht⟩, fun h => absurd hfront h⟩
  · exact (Stmt.declaredLaid_of_isPlain rfl).mpr ⟨hplaced, Or.inr htext⟩
  · rw [Cursor.AtEnd, hfront]
    rintro (h | h) <;> cases h
  · rw [hfront]
    rintro (h | h) <;> cases h

omit hg hx in
theorem isTag_of_shuts {c c' : Cursor} {es : List Expr} (hc : c.On source)
    (hfront : c.front = some .openTag ∨ c.front = some .echoTag) (h : Shuts source c c') :
    (Stmt.other ⟨c.start, c'.last⟩ es []).IsTag source := by
  obtain ⟨t, ts, hts⟩ := h.reads
  obtain ⟨hs, -, hhi⟩ := hc.token hv hts
  have hk : t.kind = .openTag ∨ t.kind = .echoTag := by simpa [hts.front] using hfront
  obtain ⟨hink, hlt⟩ := hs.ink (by rcases hk with hk | hk <;> rw [hk] <;> rfl)
  have hc' := hc.reads hts
  rw [hts.start]
  refine ⟨⟨⟨?_, hc'.le_length hv, hs.opens, (hc'.lexed hv).1⟩, hink, h.dark⟩, hs.marked_of_tag hk le_rfl hhi⟩
  exact hlt.trans_le hhi

omit hx in
theorem blockStatement_read {c c' : Cursor} {b : Block} (hc : c.On source) (hfront : c.front = some (.sign "\x7b"))
    (h : (block g).run c = some (b, c')) : DeclRead source c.start c (.block b) c' := by
  obtain ⟨hb, hstart, -, hstop, hclose⟩ := block_read hv hg hc h
  obtain ⟨t, ts, hts⟩ := hclose.reads
  have hk : t.kind = .sign "\x7b" := by simpa [hts.front] using hfront
  obtain ⟨hs, -, hhi⟩ := hc.token hv hts
  have hspan : (Stmt.block b).span = ⟨c.start, c'.last⟩ := by
    rw [← hstart, ← hstop]
    rfl
  refine .of_isPlain hclose rfl hspan ?_
  rw [Stmt.Laid]
  refine ⟨?_, hb⟩
  rw [hspan]
  exact hs.marked_of_sign hk (by decide) hts.start.le hhi

/-- **Every statement that is read lies well**, if the statements and expressions in it do. -/
theorem statement_read {c c' : Cursor} {s : Stmt} (hc : c.On source)
    (h : (statement g).run c = some (s, c')) : StmtRead source c s c' := by
  obtain ⟨start, c₁, h₁, h⟩ := run_bind_eq_some.mp h
  obtain ⟨rfl, rfl⟩ := run_here_eq_some h₁
  obtain ⟨k, c₂, h₂, h⟩ := run_bind_eq_some.mp h
  obtain ⟨hk, rfl⟩ := run_kind_eq_some.mp h₂
  split at h
  · exact (run_refuse_eq_some.mp h).elim
  · obtain ⟨rfl, t, ht⟩ := tokenStatement_read h
    exact textStatement_read hv hc ht (by simpa [ht.front] using hk)
  · obtain ⟨rfl, t, ht⟩ := tokenStatement_read h
    have hs := (hc.token hv ht).1.solid_of_tag (Or.inl (by simpa [ht.front] using hk))
    have hshuts := Shuts.of_solid ht hs
    exact DeclRead.stmtRead hv hc hk rfl (fun _ => isTag_of_shuts hv hc (Or.inl hk) hshuts)
      (.of_isPlain hshuts.closes rfl rfl trivial)
  · obtain ⟨rfl, t, ht⟩ := tokenStatement_read h
    have hs := (hc.token hv ht).1.solid_of_tag (Or.inr (Or.inr (by simpa [ht.front] using hk)))
    exact DeclRead.stmtRead hv hc hk rfl (by simp) (.of_isPlain (Shuts.of_solid ht hs).closes rfl rfl trivial)
  · obtain ⟨rfl, t, ht⟩ := tokenStatement_read h
    have hclose : Closes source c c' := ⟨⟨t, [], ht⟩, Or.inr (hc.atEnd_of_halt hv ht (by simpa [ht.front] using hk))⟩
    exact DeclRead.stmtRead hv hc hk rfl (by simp) (.of_isPlain hclose rfl rfl trivial)
  · obtain ⟨rfl, t, ht⟩ := tokenStatement_read h
    have hs := hc.shuts_sign hv ht (by simpa [ht.front] using hk)
    exact DeclRead.stmtRead hv hc hk rfl (by simp) (.of_isPlain hs.closes rfl rfl trivial)
  · obtain ⟨⟨es, rfl⟩, hshuts, hread⟩ := simpleStatement_read hv hc id h
    exact DeclRead.stmtRead hv hc hk rfl (fun _ => isTag_of_shuts hv hc (Or.inr hk) hshuts) hread
  · obtain ⟨b, c₁, h₁, h⟩ := run_bind_eq_some.mp h
    obtain ⟨rfl, rfl⟩ := run_pure_eq_some.mp h
    exact DeclRead.stmtRead hv hc hk rfl (by simp) (blockStatement_read hv hg hc hk h₁)
  · exact DeclRead.stmtRead hv hc hk rfl (by simp) (attributedStatement_read hv hg hc h)
  · exact DeclRead.stmtRead hv hc hk rfl (by simp) (wordStatement_read hv hg hx hc hk h)
  · obtain ⟨hread, k, hk', hstarts⟩ := expressionStatement_read hv hc le_rfl hx h
    obtain ⟨hvis, hopen, hecho⟩ := isVisible_of_startsOperand hstarts
    exact DeclRead.stmtRead hv hc hk' hvis (fun h => (h.elim hopen hecho).elim) hread

end Rules

end Grammar

/-! ### Files -/

theorem expr_ofFuel_read {fuel depth level : ℕ} {c c' : Cursor} {e : Expr}
    (h : ((Rules.ofFuel fuel depth).expr level).run c = some (e, c')) :
    (∃ k, c.front = some k ∧ Grammar.startsOperand k = true) ∧ (e.IsCandidate → SignRead c c') := by
  cases fuel with
  | zero => exact (run_refuse_eq_some.mp h).elim
  | succ fuel =>
    rw [Rules.ofFuel] at h
    dsimp only at h
    split at h
    · exact Grammar.expression_read h
    · exact (run_refuse_eq_some.mp h).elim

section File

variable {source : Text} (hv : Encoded source)
include hv

/-- Every statement that is read lies well, however deep rules are nested. -/
theorem ofFuel_read : ∀ {fuel depth : ℕ} {c c' : Cursor} {s : Stmt}, c.On source →
    (Rules.ofFuel fuel depth).statement.run c = some (s, c') → StmtRead source c s c'
  | 0, _, _, _, _, _, h => (run_refuse_eq_some.mp h).elim
  | _ + 1, _, _, _, _, hc, h => Grammar.statement_read hv ofFuel_read expr_ofFuel_read hc h

/-- **The tree of a valid file lies well in it.** -/
theorem tree?_declaredLaid {p : Program} (h : tree? source = some p) :
    declaredLaid source 0 source.length p := by
  unfold tree? at h
  simp only [Option.bind_eq_bind, Option.bind_eq_some_iff, Option.pure_def, Option.some.injEq] at h
  obtain ⟨ts, hts, ⟨ss, c'⟩, hrun, rfl⟩ := h
  have hc : (Cursor.mk ts 0).On source := ⟨[], hts, rfl⟩
  obtain ⟨hchain, hc'⟩ := run_many_chain (P := StmtRead source) (fun {c o c'} hc hr => by
    obtain ⟨k, c₁, h₁, h⟩ := run_bind_eq_some.mp hr
    obtain ⟨-, rfl⟩ := run_kind_eq_some.mp h₁
    split at h
    · obtain ⟨rfl, rfl⟩ := run_pure_eq_some.mp h
      exact Or.inl ⟨rfl, rfl⟩
    · obtain ⟨s, c₂, h₂, h⟩ := run_bind_eq_some.mp h
      obtain ⟨rfl, rfl⟩ := run_pure_eq_some.mp h
      exact Or.inr ⟨s, rfl, ofFuel_read hv hc h₂⟩) hc hrun
  exact declaredLaid_of_chain hv (hc'.le_length hv) hc hchain

end File

theorem parse?_eq_tree? (source : Text) : parse? source = tree? source := by
  simp only [parse?, SourceParser.parse]
  cases tree? source <;> rfl

instance : LawfulParser where
  laid hv hp := tree?_declaredLaid (isValid_iff.mp hv) (parse?_eq_tree? _ ▸ hp)

end Polyfill.Source
