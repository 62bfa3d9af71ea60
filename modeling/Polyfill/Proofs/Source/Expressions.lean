import Polyfill.Proofs.Source.Reading
import Polyfill.Source.Grammar.Expressions

/-! # What an expression is read from

An expression starts with a token of some visible kind. If it can be a notice, that is a call of a method of a
class or an expression in parentheses, then a sign has been read for it: the colons or the parenthesis.

* `Gives`: what all values of a rule have in common.
* `Signs`: the values of some kind are read with a sign.
* `expression_read`: both facts about expressions. -/

namespace Polyfill.Source

open Scan Source.Parser

/-! ### Values and signs -/

section Rules

variable {α β : Type} {C : α → Prop} {D : β → Prop}

/-- All values of the rule are of the given kind. -/
def Gives (C : α → Prop) (p : Parser α) : Prop := ∀ c a c', p.run c = some (a, c') → C a

/-- A sign other than a semicolon has been read. -/
def SignRead (c c' : Cursor) : Prop := ∃ ts, c.Reads ts c' ∧ ∃ t ∈ ts, ∃ s, t.kind = .sign s ∧ s ≠ ";"

/-- With a value of the given kind, the rule reads a sign. -/
def Signs (C : α → Prop) (p : Parser α) : Prop := ∀ c a c', p.run c = some (a, c') → C a → SignRead c c'

theorem SignRead.prepend {c c₁ c' : Cursor} {ts : List Token} (h : c.Reads ts c₁) :
    SignRead c₁ c' → SignRead c c' := by
  rintro ⟨us, hus, t, ht, hs⟩
  exact ⟨ts ++ us, h.trans hus, t, List.mem_append_right _ ht, hs⟩

theorem SignRead.append {c c₁ c' : Cursor} {us : List Token} (h : c₁.Reads us c') :
    SignRead c c₁ → SignRead c c' := by
  rintro ⟨ts, hts, t, ht, hs⟩
  exact ⟨ts ++ us, hts.trans h, t, List.mem_append_left _ ht, hs⟩

theorem signRead_of_reads {c c' : Cursor} {t : Token} {s : String} (h : c.Reads [t] c') (hk : t.kind = .sign s)
    (hs : s ≠ ";") : SignRead c c' := ⟨[t], h, t, by simp, s, hk, hs⟩

theorem gives_pure {a : α} (h : C a) : Gives C (pure a) := by
  intro c b c' hr
  obtain ⟨rfl, -⟩ := run_pure_eq_some.mp hr
  exact h

theorem gives_bind {p : Parser β} {f : β → Parser α} (h : ∀ b, Gives C (f b)) : Gives C (p >>= f) := by
  intro c a c' hr
  obtain ⟨b, c₁, -, hf⟩ := run_bind_eq_some.mp hr
  exact h b _ _ _ hf

theorem gives_bind_of {p : Parser β} {f : β → Parser α} (hp : Gives D p) (h : ∀ b, D b → Gives C (f b)) :
    Gives C (p >>= f) := by
  intro c a c' hr
  obtain ⟨b, c₁, hb, hf⟩ := run_bind_eq_some.mp hr
  exact h b (hp _ _ _ hb) _ _ _ hf

theorem gives_ite {p q : Parser α} {P : Prop} [Decidable P] (hp : Gives C p) (hq : Gives C q) :
    Gives C (if P then p else q) := by
  split
  · exact hp
  · exact hq

theorem signs_of_gives {p : Parser α} (h : Gives (fun a => ¬ C a) p) : Signs C p :=
  fun _ _ _ hr ha => absurd ha (h _ _ _ hr)

theorem signs_bind {p : Parser β} {f : β → Parser α} (h : ∀ b, Signs C (f b)) : Signs C (p >>= f) := by
  intro c a c' hr ha
  obtain ⟨b, c₁, hp, hf⟩ := run_bind_eq_some.mp hr
  obtain ⟨ts, hts⟩ := p.reads hp
  exact .prepend hts (h b _ _ _ hf ha)

theorem signs_expect {s : String} {f : Unit → Parser α} (hs : s ≠ ";") : Signs C (expect s >>= f) := by
  intro c a c' hr _
  obtain ⟨u, c₁, hp, hf⟩ := run_bind_eq_some.mp hr
  obtain ⟨t, c₂, ht, hu⟩ := run_bind_eq_some.mp hp
  obtain ⟨-, rfl⟩ := run_pure_eq_some.mp hu
  obtain ⟨us, hus⟩ := (f u).reads hf
  obtain ⟨hread, hk⟩ := run_take_eq_some.mp ht
  exact .append hus (signRead_of_reads hread hk hs)

theorem signs_of_first {p : Parser β} {f : β → Parser α} (hp : Signs (fun _ => True) p) : Signs C (p >>= f) := by
  intro c a c' hr _
  obtain ⟨b, c₁, hb, hf⟩ := run_bind_eq_some.mp hr
  obtain ⟨us, hus⟩ := (f b).reads hf
  exact .append hus (hp _ _ _ hb trivial)

theorem signs_ite {p q : Parser α} {P : Prop} [Decidable P] (hp : Signs C p) (hq : Signs C q) :
    Signs C (if P then p else q) := by
  split
  · exact hp
  · exact hq

end Rules

namespace Grammar

variable {g : Rules} {level : ℕ}

/-! ### Operands -/

/-- The rule never gives an expression that can be a notice. -/
abbrev Plain (p : Parser Expr) : Prop := Gives (fun e => ¬ e.IsCandidate) p

theorem plain_compound {shape : Shape} {parts : List Expr} :
    Plain (pure (.compound shape parts)) := gives_pure id

theorem plain_variableExpr : Plain (variableExpr g) := by
  have hfold : ∀ (signs : List Unit) (e : Expr), ¬ e.IsCandidate →
      ¬ (signs.foldl (fun e _ => Expr.compound .var [e]) e).IsCandidate := by
    intro signs
    induction signs with
    | nil => exact fun _ h => h
    | cons s signs ih => exact fun e _ => ih _ id
  refine gives_bind fun signs => gives_bind fun braces => gives_ite ?_ ?_
  · exact gives_bind fun _ => gives_bind_of (gives_pure id) fun inner hinner =>
      gives_pure (hfold signs inner hinner)
  · exact gives_bind fun _ => gives_bind_of (gives_pure id) fun inner hinner =>
      gives_pure (hfold signs inner hinner)

theorem plain_anonymousFunction {parts : List Expr} : Plain (anonymousFunction g parts) := by
  refine gives_bind fun _ => gives_bind fun arrow => gives_ite ?_ ?_
  · exact gives_bind fun _ => gives_bind fun _ => gives_bind fun _ => gives_bind fun _ => gives_bind fun _ =>
      gives_pure id
  · exact gives_bind fun _ => gives_bind fun _ => gives_bind fun _ => gives_bind fun _ => gives_bind fun _ =>
      gives_bind fun _ => gives_pure id

theorem plain_arrayEntries {close : String} : Plain (arrayEntries g close) :=
  gives_bind fun _ => gives_bind fun _ => plain_compound

theorem plain_template : Plain (template g) :=
  gives_bind fun _ => gives_bind fun _ => gives_bind fun _ => plain_compound

theorem plain_creation : Plain (creation g) := by
  refine gives_bind fun _ => gives_ite ?_ ?_
  · exact gives_bind fun _ => gives_bind fun _ => gives_bind fun _ => gives_bind fun _ => gives_bind fun _ =>
      gives_bind fun _ => gives_bind fun _ => gives_pure id
  · exact gives_bind fun _ => gives_bind fun _ => plain_compound

theorem plain_matchExpr : Plain (matchExpr g) :=
  gives_bind fun _ => gives_bind fun _ => gives_bind fun _ => gives_bind fun _ => gives_bind fun _ => plain_compound

theorem plain_yieldExpr : Plain (yieldExpr g) := by
  refine gives_bind fun _ => gives_ite plain_compound (gives_bind fun _ => gives_ite ?_ ?_)
  · exact gives_bind fun _ => plain_compound
  · exact gives_bind fun _ => gives_bind fun _ => gives_ite (gives_bind fun _ => plain_compound) plain_compound

theorem plain_enclosed : Plain (enclosed g) :=
  gives_bind fun _ => gives_bind fun _ => gives_bind fun _ => plain_compound

theorem plain_constructParts {w : String} {p : Parser Expr} (h : constructParts g w = some p) : Plain p := by
  unfold constructParts at h
  split at h <;> cases h
  case h_1 => exact plain_creation
  case h_2 => exact plain_yieldExpr
  case h_9 => exact gives_bind fun _ => gives_bind fun _ => plain_compound
  case h_10 | h_11 => exact plain_enclosed
  all_goals exact gives_bind fun _ => plain_compound

theorem plain_calledParts {w : String} {p : Parser Expr} (h : calledParts g w = some p) : Plain p := by
  unfold calledParts at h
  split at h
  · cases h
    exact gives_bind fun _ => plain_arrayEntries
  · cases h
    exact gives_bind fun _ => plain_arrayEntries
  · cases h
    exact plain_matchExpr
  · cases h

theorem plain_namedOperand {w : String} : Plain (namedOperand w) :=
  gives_bind fun _ => gives_bind fun _ => gives_bind fun _ => gives_ite plain_compound (gives_pure id)

theorem plain_wordOperand {w : String} : Plain (wordOperand g w) := by
  refine gives_bind fun _ => gives_ite plain_anonymousFunction (gives_bind fun _ => gives_ite ?_ ?_)
  · exact gives_bind fun _ => gives_bind fun _ => plain_compound
  · split
    · next hp => exact gives_bind fun _ => plain_constructParts hp
    · next hp => exact gives_ite (gives_bind fun _ => plain_calledParts hp) plain_namedOperand
    · exact plain_namedOperand

theorem run_seesVariable_eq {c c' : Cursor} {b : Bool} (h : seesVariable.run c = some (b, c')) : c = c' := by
  obtain ⟨k, c₁, h₁, h⟩ := run_bind_eq_some.mp h
  obtain ⟨-, rfl⟩ := run_kind_eq_some.mp h₁
  split at h <;> exact (run_pure_eq_some.mp h).2

/-- An expression in parentheses is read with the first of them. -/
theorem signOperand_read {c c' : Cursor} {s : String} {e : Expr} (hk : c.front = some (.sign s))
    (h : (signOperand g s).run c = some (e, c')) (he : e.IsCandidate) : SignRead c c' := by
  unfold signOperand at h
  split at h
  · exact absurd he (gives_bind (fun _ => plain_anonymousFunction) _ _ _ h)
  · obtain ⟨b, c₁, h₁, h⟩ := run_bind_eq_some.mp h
    obtain rfl := run_seesVariable_eq h₁
    split at h
    · exact absurd he (plain_variableExpr _ _ _ h)
    · obtain ⟨t, c₂, h₂, h⟩ := run_bind_eq_some.mp h
      have ht := run_next_eq_some.mp h₂
      split at h
      · next hs =>
        obtain ⟨us, hus⟩ := Parser.reads _ h
        have htk : t.kind = .sign s := by simpa [ht.front] using hk
        exact .append hus (signRead_of_reads ht htk (by simp [beq_iff_eq.mp hs]))
      · refine absurd he (gives_ite plain_arrayEntries (gives_ite (gives_bind fun _ => plain_compound) ?_) _ _ _ h)
        split
        · exact gives_bind fun _ => plain_compound
        · exact fun _ _ _ h => (run_refuse_eq_some.mp h).elim

/-- The kinds of tokens that an expression can start with. -/
def startsOperand : TokenKind → Bool
  | .var | .qualified | .number | .string | .templateStart | .cast | .word _ | .sign _ => true
  | _ => false

theorem isVisible_of_startsOperand {k : TokenKind} (h : startsOperand k = true) :
    k.isVisible = true ∧ k ≠ .openTag ∧ k ≠ .echoTag := by
  cases k with
  | inlineText | templateEnd | embedStart | embedEnd | openTag | echoTag | closeTag => cases h
  | _ => exact ⟨rfl, by simp, by simp⟩

theorem operand_read {c c' : Cursor} {e : Expr} (h : (operand g).run c = some (e, c')) :
    (∃ k, c.front = some k ∧ startsOperand k = true) ∧ (e.IsCandidate → SignRead c c') := by
  obtain ⟨k, c₁, h₁, h⟩ := run_bind_eq_some.mp h
  obtain ⟨hk, rfl⟩ := run_kind_eq_some.mp h₁
  have hplain : ∀ {p : Parser Expr}, Plain p → p.run c = some (e, c') → e.IsCandidate → SignRead c c' :=
    fun hp hr he => absurd he (hp _ _ _ hr)
  split at h
  · exact ⟨⟨_, hk, rfl⟩, hplain plain_variableExpr h⟩
  · exact ⟨⟨_, hk, rfl⟩, hplain (gives_bind fun _ => gives_pure id) h⟩
  · exact ⟨⟨_, hk, rfl⟩, hplain (gives_bind fun _ => plain_compound) h⟩
  · exact ⟨⟨_, hk, rfl⟩, hplain (gives_bind fun _ => gives_pure id) h⟩
  · exact ⟨⟨_, hk, rfl⟩, hplain plain_template h⟩
  · exact ⟨⟨_, hk, rfl⟩, hplain (gives_bind fun _ => gives_bind fun _ => plain_compound) h⟩
  · exact ⟨⟨_, hk, rfl⟩, hplain plain_wordOperand h⟩
  · exact ⟨⟨_, hk, rfl⟩, signOperand_read hk h⟩
  · exact (run_refuse_eq_some.mp h).elim

/-! ### Suffixes and operators -/

/-- The value is an expression that can be a notice. -/
def SomeCandidate (o : Option Expr) : Prop := ∃ e, o = some e ∧ e.IsCandidate

theorem signs_some {p : Parser Expr} (h : Signs Expr.IsCandidate p) :
    Signs SomeCandidate (do return some (← p)) := by
  intro c o c' hr ho
  obtain ⟨e, c₁, hp, hf⟩ := run_bind_eq_some.mp hr
  obtain ⟨rfl, rfl⟩ := run_pure_eq_some.mp hf
  obtain ⟨e', he, hc⟩ := ho
  cases he
  exact h _ _ _ hp hc

theorem signs_none : Signs SomeCandidate (pure none) :=
  signs_of_gives (gives_pure (by rintro ⟨e, he, -⟩; cases he))

theorem signs_callOf {C : Expr → Prop} {complete : List Arg → Expr} {parts : List Expr} :
    Signs C (callOf g complete parts) := signs_of_first (signs_expect (by decide))

theorem signs_objectMember {object : Expr} : Signs Expr.IsCandidate (objectMember g level object) :=
  signs_bind fun _ => signs_bind fun _ => signs_ite signs_callOf (signs_of_gives plain_compound)

theorem signs_computedMember {shape : Shape} {target e : Expr} :
    Signs Expr.IsCandidate (computedMember g level shape target e) :=
  signs_bind fun _ => signs_ite signs_callOf (signs_of_gives plain_compound)

theorem signs_classMember {target : Expr} : Signs Expr.IsCandidate (classMember g level target) := by
  refine signs_bind fun _ => signs_ite ?_ (signs_bind fun _ => signs_ite ?_ ?_)
  · exact signs_bind fun _ => signs_computedMember
  · exact signs_bind fun _ => signs_computedMember
  · exact signs_bind fun _ => signs_bind fun _ => signs_ite signs_callOf (signs_of_gives plain_compound)

theorem signs_element {array : Expr} : Signs Expr.IsCandidate (element g array) :=
  signs_of_gives (gives_bind fun _ => gives_ite plain_compound
    (gives_bind fun _ => gives_bind fun _ => plain_compound))

theorem signs_withSuffix {e : Expr} : Signs SomeCandidate (withSuffix g level e) := by
  have hcount : Signs SomeCandidate (do
      let up ← accept "++"
      let down ← accept "--"
      if (decide (level ≤ countLevel) && (up || down)) = true then
        pure (some (Expr.compound .count [e]))
      else pure none : Parser (Option Expr)) := by
    refine signs_bind fun _ => signs_bind fun _ => signs_ite ?_ signs_none
    exact signs_of_gives (gives_pure (by rintro ⟨e', he, hc⟩; cases he; exact hc))
  refine signs_bind fun _ => signs_ite (signs_some signs_callOf) (signs_bind fun _ => signs_ite ?_ ?_)
  · exact signs_some signs_element
  · refine signs_ite (signs_bind fun _ => signs_bind fun _ => signs_ite ?_ (signs_bind fun _ => signs_ite ?_ ?_)) ?_
    · exact signs_some signs_objectMember
    · exact signs_some signs_classMember
    · exact hcount
    · exact hcount

theorem not_isCandidate_assign (value e : Expr) : ¬ (Expr.assign value e).IsCandidate := by
  unfold Expr.assign
  split <;> exact id

theorem plain_operatorParts {left : Expr} {s : String} {n : ℕ} {p : Parser Expr}
    (h : operatorParts g left s = some (n, p)) : Plain p := by
  unfold operatorParts at h
  split at h
  · cases h
    exact gives_bind fun _ => gives_pure (not_isCandidate_assign _ _)
  split at h
  · cases h
    refine gives_bind fun _ => gives_ite (gives_bind fun _ => plain_compound) ?_
    exact gives_bind fun _ => gives_bind fun _ => gives_bind fun _ => plain_compound
  split at h
  · cases h
    exact gives_bind fun _ => plain_compound
  · obtain ⟨op, -, hp⟩ := Option.map_eq_some_iff.mp h
    cases hp
    exact gives_bind fun _ => gives_pure id

theorem signs_withOperator {left : Expr} : Signs SomeCandidate (withOperator g level left) := by
  refine signs_bind fun s => ?_
  split
  · exact signs_none
  · next hp =>
    refine signs_ite (signs_bind fun _ => signs_some ?_) signs_none
    exact signs_of_gives (plain_operatorParts hp)

theorem signs_extended {e : Expr} : Signs SomeCandidate (extended g level e) := by
  intro c o c' hr ho
  obtain ⟨o₁, c₁, h₁, h⟩ := run_bind_eq_some.mp hr
  cases o₁ with
  | some e' =>
    obtain ⟨rfl, rfl⟩ := run_pure_eq_some.mp h
    exact signs_withSuffix _ _ _ h₁ ho
  | none =>
    obtain ⟨ts, hts⟩ := Parser.reads _ h₁
    exact .prepend hts (signs_withOperator _ _ _ h ho)

theorem iterate_read : ∀ {fuel : ℕ} {c c' : Cursor} {e e' : Expr},
    (iterate (extended g level) fuel e).run c = some (e', c') → e'.IsCandidate → e' = e ∨ SignRead c c'
  | 0, _, _, _, _, h, _ => (run_refuse_eq_some.mp h).elim
  | fuel + 1, c, c', e, e', h, he => by
    obtain ⟨o, c₁, h₁, h⟩ := run_bind_eq_some.mp h
    cases o with
    | none => exact Or.inl (run_pure_eq_some.mp h).1.symm
    | some e₁ =>
      obtain ⟨ts, hts⟩ := Parser.reads _ h
      rcases iterate_read h he with rfl | hs
      · exact Or.inr (.append hts (signs_extended _ _ _ h₁ ⟨_, rfl, he⟩))
      · obtain ⟨us, hus⟩ := Parser.reads _ h₁
        exact Or.inr (.prepend hus hs)

/-- **What an expression is read from**: a token of a visible kind, and a sign if it can be a notice. -/
theorem expression_read {c c' : Cursor} {e : Expr} (h : (expression g level).run c = some (e, c')) :
    (∃ k, c.front = some k ∧ startsOperand k = true) ∧ (e.IsCandidate → SignRead c c') := by
  obtain ⟨e₀, c₁, h₁, h⟩ := run_bind_eq_some.mp h
  obtain ⟨n, c₂, h₂, h⟩ := run_bind_eq_some.mp h
  obtain ⟨-, rfl⟩ := run_look_eq_some.mp h₂
  obtain ⟨hfront, hsign⟩ := operand_read h₁
  refine ⟨hfront, fun he => ?_⟩
  obtain ⟨ts, hts⟩ := Parser.reads _ h
  rcases iterate_read h he with rfl | hs
  · exact .append hts (hsign he)
  · obtain ⟨us, hus⟩ := Parser.reads _ h₁
    exact .prepend hus hs

end Grammar

end Polyfill.Source
