import Polyfill.Proofs.Source.Controls

/-! # What declarations are read from

A declaration lies where its tokens stand: its name stands behind a keyword and cuts no identifier, the bodies of its
methods come one after the other behind the name, and the statements of a namespace lie behind its name.

* `ClassRead`: what is known of a class, an interface, a trait or an enumeration.
* `DeclRead`: what is known of a declaration, or of another statement that is no text.
* `declaration_read`, `expressionStatement_read`: this holds of what the rules read. -/

namespace Polyfill.Source

open Text Scan Source.Parser

namespace Grammar

section Names

variable {source : Text} (hv : Encoded source) {c c₁ c' : Cursor} {k : Token} {i : Ident} (hc : c.On source)
  (hk : c.Reads [k] c₁) (hkn : k.kind.IsName)
include hv hc hk hkn

theorem word_read (h : word.run c₁ = some (i, c')) :
    Named source i ∧ c₁.last ≤ i.span.start ∧ i.span.stop = c'.last := by
  obtain ⟨t, c₂, h₂, h⟩ := run_bind_eq_some.mp h
  have ht := run_next_eq_some.mp h₂
  obtain ⟨-, hle, -⟩ := (hc.reads hk).token hv ht
  split at h
  · next w hw =>
    obtain ⟨rfl, rfl⟩ := run_pure_eq_some.mp h
    exact ⟨hc.named hv hk hkn ht (Or.inr ⟨w, hw⟩), hle, ht.last.symm⟩
  · exact (run_refuse_eq_some.mp h).elim

theorem name_read (h : name.run c₁ = some (i, c')) :
    Named source i ∧ c₁.last ≤ i.span.start ∧ i.span.stop = c'.last := by
  obtain ⟨b, c₂, h₂, h⟩ := run_bind_eq_some.mp h
  obtain ⟨hb, rfl⟩ := run_at?_eq_some.mp h₂
  split at h
  · next hq =>
    obtain ⟨t, c₃, h₃, h⟩ := run_bind_eq_some.mp h
    obtain ⟨rfl, rfl⟩ := run_pure_eq_some.mp h
    have ht := run_next_eq_some.mp h₃
    obtain ⟨-, hle, -⟩ := (hc.reads hk).token hv ht
    rw [hq, beq_iff_eq, ht.front, Option.some.injEq] at hb
    exact ⟨hc.named hv hk hkn ht (Or.inl hb), hle, ht.last.symm⟩
  · exact word_read hv hc hk hkn h

end Names

theorem run_className {c c' : Cursor} {i : Ident} (h : className.run c = some (i, c')) : word.run c = some (i, c') := by
  obtain ⟨k, c₁, h₁, h⟩ := run_bind_eq_some.mp h
  obtain ⟨-, rfl⟩ := run_kind_eq_some.mp h₁
  obtain ⟨u, c₂, h₂, h⟩ := run_bind_eq_some.mp h
  obtain ⟨-, rfl⟩ := run_ensure_eq_some.mp h₂
  exact h

section Rules

variable {source : Text} (hv : Encoded source) {g : Rules}
  (hg : ∀ {c s c'}, c.On source → g.statement.run c = some (s, c') → StmtRead source c s c')
include hv hg

/-! ### Namespaces -/

omit hg in
/-- Statements up to the next namespace or the end of the file end as a statement does. -/
theorem closes_of_statements {c' : Cursor} (hend : c'.front = none ∨ ∃ w, c'.front = some (.word w)) :
    ∀ {ss : List Stmt} {c : Cursor}, c.On source → Chain (StmtRead source) c ss c' → c = c' ∨ Closes source c c'
  | [], _, _, h => Or.inl h
  | s :: ss, c, hc, ⟨c₁, hs, h⟩ => by
    obtain ⟨ts, hts⟩ := hs.reads
    rcases closes_of_statements hend (hc.reads hts) h with rfl | hclose
    · by_cases htext : c.front = some .inlineText
      · obtain ⟨-, t, ht⟩ := hs.text htext
        have hk : t.kind = .inlineText := by simpa [ht.front] using htext
        refine Or.inr ⟨⟨t, [], ht⟩, Or.inr ?_⟩
        rcases hc.front_behind_text hv ht hk with h | h | h | ⟨-, h⟩
        · exact h
        all_goals
          rcases hend with h' | ⟨w, h'⟩ <;> rw [h] at h' <;> cases h'
      · exact Or.inr (hs.code htext).1
    · exact Or.inr (.prepend hts hclose)

/-- What is declared behind the name of a namespace. -/
theorem namespaceBody_read {c c' : Cursor} {ident ident' : Option Ident} {ss : List Stmt} (hc : c.On source)
    (h : (do
      if ← sees "\x7b" then return (ident, (← block g).statements)
      terminator
      let statements ← many do
        match ← kind with
        | none | some (.word "namespace") => return none
        | some _ => return some (← g.statement)
      return (ident, statements) : Parser (Option Ident × List Stmt)).run c = some ((ident', ss), c')) :
    ident' = ident ∧ (∃ mid, c.last ≤ mid ∧ declaredLaid source mid c'.last ss) ∧ Closes source c c' := by
  obtain ⟨b, c₁, h₁, h⟩ := run_bind_eq_some.mp h
  obtain ⟨-, rfl⟩ := run_at?_eq_some.mp h₁
  split at h
  · obtain ⟨blk, c₂, h₂, h⟩ := run_bind_eq_some.mp h
    obtain ⟨hparts, rfl⟩ := run_pure_eq_some.mp h
    cases hparts
    have hclose := (block_read hv hg hc h₂).2.2.2.2
    obtain ⟨o, z, c₃, c₄, ts, ss', ho, -, hts, hchain, hz, -, rfl⟩ := block_chain hg hc h₂
    have hc₃ := hc.reads ho
    exact ⟨rfl, ⟨_, hc.le hv ho, declaredLaid_of_chain hv ((hc₃.reads hts).le hv hz) hc₃ hchain⟩, hclose⟩
  · obtain ⟨u, c₂, h₂, h⟩ := run_bind_eq_some.mp h
    obtain ⟨ss', c₃, h₃, h⟩ := run_bind_eq_some.mp h
    obtain ⟨hparts, rfl⟩ := run_pure_eq_some.mp h
    cases hparts
    obtain ⟨hc₂, hle⟩ := hc.run hv h₂
    obtain ⟨ts, hts⟩ := Parser.reads _ h₂
    obtain ⟨hchain, -, hend⟩ := run_many_chain_end (P := StmtRead source)
      (E := fun c => c.front = none ∨ ∃ w, c.front = some (.word w)) (fun {c o c'} hc hr => by
        obtain ⟨k, c₁, h₁, h⟩ := run_bind_eq_some.mp hr
        obtain ⟨hk, rfl⟩ := run_kind_eq_some.mp h₁
        split at h
        · obtain ⟨rfl, rfl⟩ := run_pure_eq_some.mp h
          exact Or.inl ⟨rfl, rfl, Or.inl hk⟩
        · obtain ⟨rfl, rfl⟩ := run_pure_eq_some.mp h
          exact Or.inl ⟨rfl, rfl, Or.inr ⟨_, hk⟩⟩
        · obtain ⟨s, c₂, h₂, h⟩ := run_bind_eq_some.mp h
          obtain ⟨rfl, rfl⟩ := run_pure_eq_some.mp h
          exact Or.inr ⟨s, rfl, hg hc h₂⟩) hc₂ h₃
    refine ⟨rfl, ⟨_, hle, declaredLaid_of_chain hv le_rfl hc₂ hchain⟩, ?_⟩
    rcases closes_of_statements hv hend hc₂ hchain with rfl | hclose
    · exact (hc.shuts_terminator hv h₂).closes
    · exact .prepend hts hclose

theorem namespaceParts_read {c₀ c c' : Cursor} {k : Token} {ident : Option Ident} {ss : List Stmt}
    (hc₀ : c₀.On source) (hk : c₀.Reads [k] c) (hkn : k.kind.IsName)
    (h : (namespaceParts g).run c = some ((ident, ss), c')) :
    (∃ mid, c.last ≤ mid ∧ (∀ i ∈ ident, Named source i ∧ c.last ≤ i.span.start ∧ i.span.stop ≤ mid) ∧
      declaredLaid source mid c'.last ss) ∧ Closes source c c' := by
  have hc := hc₀.reads hk
  obtain ⟨k, c₁, h₁, h⟩ := run_bind_eq_some.mp h
  obtain ⟨-, rfl⟩ := run_kind_eq_some.mp h₁
  split at h
  case h_4 =>
    obtain ⟨i, c₂, h₂, h⟩ := run_bind_eq_some.mp h
    obtain ⟨ident', c₃, h₃, h⟩ := run_bind_eq_some.mp h
    obtain ⟨rfl, rfl⟩ := run_pure_eq_some.mp h₃
    obtain ⟨hi, hlo, hhi⟩ := name_read hv hc₀ hk hkn h₂
    obtain ⟨hc₂, hle₂⟩ := hc.run hv h₂
    obtain ⟨ts, hts⟩ := Parser.reads _ h₂
    obtain ⟨rfl, ⟨mid, hmid, hss⟩, hclose⟩ := namespaceBody_read hv hg hc₂ h
    refine ⟨⟨mid, hle₂.trans hmid, fun j hj => ?_, hss⟩, .prepend hts hclose⟩
    cases hj
    exact ⟨hi, hlo, hhi.le.trans hmid⟩
  all_goals
    obtain ⟨ident', c₂, h₂, h⟩ := run_bind_eq_some.mp h
    obtain ⟨rfl, rfl⟩ := run_pure_eq_some.mp h₂
    obtain ⟨rfl, ⟨mid, hmid, hss⟩, hclose⟩ := namespaceBody_read hv hg hc h
    exact ⟨⟨mid, hmid, by simp, hss⟩, hclose⟩

/-! ### Imports -/

omit hg in
theorem importParts_read {c c' : Cursor} {imports : Option (List Import)} (hc : c.On source)
    (h : importParts.run c = some (imports, c')) : Shuts source c c' := by
  obtain ⟨typed, c₁, h₁, h⟩ := run_bind_eq_some.mp h
  obtain ⟨k, c₂, h₂, h⟩ := run_bind_eq_some.mp h
  obtain ⟨ts₁, hts₁⟩ := Parser.reads _ h₁
  obtain ⟨ts₂, hts₂⟩ := Parser.reads _ h₂
  split at h
  all_goals
    obtain ⟨_, c₃, h₃, h⟩ := run_bind_eq_some.mp h
    obtain ⟨u, c₄, h₄, h⟩ := run_bind_eq_some.mp h
    obtain ⟨rfl, rfl⟩ := run_pure_eq_some.mp h
    obtain ⟨ts₃, hts₃⟩ := Parser.reads _ h₃
    have hts := hts₁.trans (hts₂.trans hts₃)
    exact .prepend hts ((hc.reads hts).shuts_terminator hv h₄)

/-! ### Classes -/

/-- The body of a method, if it has one. -/
theorem method_read {c c' : Cursor} {attrs : List Expr} {m : Member} (hc : c.On source)
    (h : (method g attrs).run c = some (m, c')) :
    ∀ b ∈ m.body?, b.Laid source ∧ c.last ≤ b.place.start ∧ b.place.stop ≤ c'.last := by
  obtain ⟨amp, c₁, h₁, h⟩ := run_bind_eq_some.mp h
  obtain ⟨i, c₂, h₂, h⟩ := run_bind_eq_some.mp h
  obtain ⟨params, c₃, h₃, h⟩ := run_bind_eq_some.mp h
  obtain ⟨u, c₄, h₄, h⟩ := run_bind_eq_some.mp h
  obtain ⟨semi, c₅, h₅, h⟩ := run_bind_eq_some.mp h
  split at h
  · obtain ⟨rfl, rfl⟩ := run_pure_eq_some.mp h
    exact fun b hb => by cases hb
  · obtain ⟨b, c₆, h₆, h⟩ := run_bind_eq_some.mp h
    obtain ⟨rfl, rfl⟩ := run_pure_eq_some.mp h
    obtain ⟨ts₁, hts₁⟩ := Parser.reads _ h₁
    obtain ⟨ts₂, hts₂⟩ := Parser.reads _ h₂
    obtain ⟨ts₃, hts₃⟩ := Parser.reads _ h₃
    obtain ⟨ts₄, hts₄⟩ := Parser.reads _ h₄
    obtain ⟨ts₅, hts₅⟩ := Parser.reads _ h₅
    have hts := hts₁.trans (hts₂.trans (hts₃.trans (hts₄.trans hts₅)))
    obtain ⟨hb, -, hlo, hhi, -⟩ := block_read hv hg (hc.reads hts) h₆
    intro b' hb'
    cases hb'
    exact ⟨hb, (hc.le hv hts).trans hlo, hhi.le⟩

omit hv hg in
/-- The member has no body. -/
abbrev Bodiless (p : Parser Member) : Prop := Gives (fun m => m.body? = none) p

omit hv hg in
theorem bodiless_traitUse : Bodiless traitUse := by
  refine gives_bind fun _ => gives_bind fun _ => gives_ite ?_ ?_
  · exact gives_bind fun _ => gives_bind fun _ => gives_pure rfl
  · exact gives_bind fun _ => gives_pure rfl

omit hv hg in
theorem bodiless_enumCase : Bodiless (enumCase g) :=
  gives_bind fun _ => gives_bind fun _ => gives_bind fun _ => gives_pure rfl

omit hv hg in
theorem bodiless_constants : Bodiless (constants g) := by
  refine gives_bind fun _ => gives_ite ?_ ?_
  · exact gives_bind fun _ => gives_bind fun _ => gives_bind fun _ => gives_pure rfl
  · exact gives_bind fun _ => gives_bind fun _ => gives_pure rfl

omit hv hg in
theorem bodiless_properties : Bodiless (properties g) := by
  have hrest : ∀ {first : List Expr}, Bodiless (do
      if ← sees "\x7b" then return Member.other (first ++ (← hooks g (parameter g)))
      let more ← many do
        if ← accept "," then return some (← property g) else return none
      terminator
      return Member.other (first ++ more.flatten)) := by
    intro first
    refine gives_bind fun _ => gives_ite ?_ ?_
    · exact gives_bind fun _ => gives_pure rfl
    · exact gives_bind fun _ => gives_bind fun _ => gives_pure rfl
  refine gives_bind fun _ => gives_bind fun _ => gives_ite ?_ ?_
  · exact gives_bind fun _ => gives_bind fun _ => hrest
  · exact gives_bind fun _ => hrest

/-- The body of a member, if it has one. -/
theorem member_read {c c' : Cursor} {m : Member} (hc : c.On source) (h : (member g).run c = some (m, c')) :
    ∀ b ∈ m.body?, b.Laid source ∧ c.last ≤ b.place.start ∧ b.place.stop ≤ c'.last := by
  have bodiless : ∀ {p : Parser Member} {c₁ : Cursor}, Bodiless p → p.run c₁ = some (m, c') →
      ∀ b ∈ m.body?, b.Laid source ∧ c.last ≤ b.place.start ∧ b.place.stop ≤ c'.last := by
    intro p c₁ hp hr b hb
    rw [hp _ _ _ hr] at hb
    cases hb
  obtain ⟨use, c₁, h₁, h⟩ := run_bind_eq_some.mp h
  split at h
  · exact bodiless bodiless_traitUse h
  obtain ⟨attrs, c₂, h₂, h⟩ := run_bind_eq_some.mp h
  obtain ⟨case, c₃, h₃, h⟩ := run_bind_eq_some.mp h
  split at h
  · exact bodiless bodiless_enumCase h
  obtain ⟨modifiers, c₄, h₄, h⟩ := run_bind_eq_some.mp h
  obtain ⟨const, c₅, h₅, h⟩ := run_bind_eq_some.mp h
  split at h
  · exact bodiless bodiless_constants h
  obtain ⟨function, c₆, h₆, h⟩ := run_bind_eq_some.mp h
  split at h
  · obtain ⟨hc₁, hle₁⟩ := hc.run hv h₁
    obtain ⟨hc₂, hle₂⟩ := hc₁.run hv h₂
    obtain ⟨hc₃, hle₃⟩ := hc₂.run hv h₃
    obtain ⟨hc₄, hle₄⟩ := hc₃.run hv h₄
    obtain ⟨hc₅, hle₅⟩ := hc₄.run hv h₅
    obtain ⟨hc₆, hle₆⟩ := hc₅.run hv h₆
    intro b hb
    obtain ⟨hlaid, hlo, hhi⟩ := method_read hv hg hc₆ h b hb
    exact ⟨hlaid, by omega, hhi⟩
  · exact bodiless bodiless_properties h

omit hv hg in
theorem blocksLaid_of_chain {R : Cursor → Member → Cursor → Prop}
    (hR : ∀ {c m c'}, R c m c' → c.last ≤ c'.last ∧
      ∀ b ∈ m.body?, b.Laid source ∧ c.last ≤ b.place.start ∧ b.place.stop ≤ c'.last) :
    ∀ {ms : List Member} {c c' : Cursor}, Chain R c ms c' →
      blocksLaid source c.last c'.last (ms.filterMap Member.body?)
  | [], c, c', h => by
    have h' : c = c' := h
    exact h' ▸ le_rfl
  | m :: ms, c, c', ⟨c₁, hm, h⟩ => by
    obtain ⟨hle, hbody⟩ := hR hm
    have ih := blocksLaid_of_chain hR h
    cases hb : m.body? with
    | none =>
      rw [List.filterMap_cons_none hb]
      exact ih.mono hle le_rfl
    | some b =>
      obtain ⟨hlaid, hlo, hhi⟩ := hbody b hb
      rw [List.filterMap_cons_some hb]
      exact ⟨hlo, hlaid, ih.mono hhi le_rfl⟩

/-- **The bodies of the methods of a class lie well**, one after the other. -/
theorem members_read {c c' : Cursor} {ms : List Member} (hc : c.On source) (h : (members g).run c = some (ms, c')) :
    blocksLaid source c.last c'.last (ms.filterMap Member.body?) ∧ Shuts source c c' := by
  obtain ⟨u, c₁, h₁, h⟩ := run_bind_eq_some.mp h
  obtain ⟨ms', c₂, h₂, h⟩ := run_bind_eq_some.mp h
  obtain ⟨u', c₃, h₃, h⟩ := run_bind_eq_some.mp h
  obtain ⟨rfl, rfl⟩ := run_pure_eq_some.mp h
  obtain ⟨hc₁, hle₁⟩ := hc.run hv h₁
  obtain ⟨hc₂, hle₂⟩ := hc₁.run hv h₂
  obtain ⟨z, hz, hzk⟩ := run_expect_eq_some h₃
  obtain ⟨ts₁, hts₁⟩ := Parser.reads _ h₁
  obtain ⟨ts₂, hts₂⟩ := Parser.reads _ h₂
  obtain ⟨hchain, -⟩ := run_manyUntil_eq_some h₂
  obtain ⟨hmembers, -⟩ := hchain.mono (S := fun c m c' => c.last ≤ c'.last ∧
      ∀ b ∈ m.body?, b.Laid source ∧ c.last ≤ b.place.start ∧ b.place.stop ≤ c'.last)
    (fun hc hr => ⟨⟨(hc.run hv hr).2, member_read hv hg hc hr⟩, (hc.run hv hr).1⟩) hc₁
  refine ⟨?_, .prepend (hts₁.trans hts₂) (hc₂.shuts_sign hv hz hzk)⟩
  exact (blocksLaid_of_chain id hmembers).mono hle₁ (hc₂.le hv hz)

/-- What is known of a class that has been read from its keyword or its modifiers on. -/
structure ClassRead (source : Text) (c : Cursor) (ident : Ident) (ms : List Member) (c' : Cursor) : Prop
    extends Shuts source c c' where
  named : Named source ident
  start : c.start ≤ ident.span.start
  bodies : blocksLaid source ident.span.stop c'.last (ms.filterMap Member.body?)

/-- A class: some tokens, its keyword, its name, and its members behind further tokens. -/
theorem classRead_of {c c₀ c₁ c₂ c₃ c' : Cursor} {k : Token} {w : String} {ts us : List Token} {ident : Ident}
    {ms : List Member} (hc : c.On source) (hts : c.Reads ts c₀) (hk : c₀.Reads [k] c₁) (hw : k.kind = .word w)
    (hname : className.run c₁ = some (ident, c₂)) (hus : c₂.Reads us c₃) (hms : (members g).run c₃ = some (ms, c')) :
    ClassRead source c ident ms c' := by
  have hc₀ := hc.reads hts
  have hword := run_className hname
  obtain ⟨hnamed, hlo, hhi⟩ := word_read hv hc₀ hk (Or.inr ⟨w, hw⟩) hword
  obtain ⟨hc₂, -⟩ := (hc₀.reads hk).run hv hword
  obtain ⟨hblocks, hshuts⟩ := members_read hv hg (hc₂.reads hus) hms
  obtain ⟨vs, hvs⟩ := Parser.reads _ hword
  have hstart := hc.start_mono hv hts
  have : k.start ≤ k.stop := Nat.le_add_right _ _
  refine ⟨.prepend (hts.trans (hk.trans (hvs.trans hus))) hshuts, hnamed, ?_, hblocks.mono ?_ le_rfl⟩
  · have hlast : c₁.last = k.stop := hk.last
    rw [hk.start] at hstart
    omega
  · rw [hhi]
    exact hc₂.le hv hus

theorem classParts_read {c c' : Cursor} {ident : Ident} {ms : List Member} (hc : c.On source)
    (h : (classParts g).run c = some ((ident, ms), c')) : ClassRead source c ident ms c' := by
  obtain ⟨modifiers, c₁, h₁, h⟩ := run_bind_eq_some.mp h
  obtain ⟨u, c₂, h₂, h⟩ := run_bind_eq_some.mp h
  obtain ⟨i, c₃, h₃, h⟩ := run_bind_eq_some.mp h
  obtain ⟨u₄, c₄, h₄, h⟩ := run_bind_eq_some.mp h
  obtain ⟨u₅, c₅, h₅, h⟩ := run_bind_eq_some.mp h
  obtain ⟨ms', c₆, h₆, h⟩ := run_bind_eq_some.mp h
  obtain ⟨hparts, rfl⟩ := run_pure_eq_some.mp h
  cases hparts
  obtain ⟨ts₁, hts₁⟩ := Parser.reads _ h₁
  obtain ⟨k, hk, hw⟩ := run_expectWord_eq_some h₂
  obtain ⟨ts₄, hts₄⟩ := Parser.reads _ h₄
  obtain ⟨ts₅, hts₅⟩ := Parser.reads _ h₅
  exact classRead_of hv hg hc hts₁ hk hw h₃ (hts₄.trans hts₅) h₆

/-- The rules for what is behind the keyword of an interface, a trait or an enumeration. -/
theorem classLike_read {c c₁ c' : Cursor} {t : Token} {w : String} {p : Parser (Ident × List Member)} {ident : Ident}
    {ms : List Member} (hp : p = interfaceParts g ∨ p = traitParts g ∨ p = enumParts g) (hc : c.On source)
    (ht : c.Reads [t] c₁) (hw : t.kind = .word w) (h : p.run c₁ = some ((ident, ms), c')) :
    ClassRead source c ident ms c' := by
  rcases hp with rfl | rfl | rfl
  · obtain ⟨i, c₂, h₂, h⟩ := run_bind_eq_some.mp h
    obtain ⟨u, c₃, h₃, h⟩ := run_bind_eq_some.mp h
    obtain ⟨ms', c₄, h₄, h⟩ := run_bind_eq_some.mp h
    obtain ⟨hparts, rfl⟩ := run_pure_eq_some.mp h
    cases hparts
    obtain ⟨ts₃, hts₃⟩ := Parser.reads _ h₃
    exact classRead_of hv hg hc (.refl c) ht hw h₂ hts₃ h₄
  · obtain ⟨i, c₂, h₂, h⟩ := run_bind_eq_some.mp h
    obtain ⟨ms', c₃, h₃, h⟩ := run_bind_eq_some.mp h
    obtain ⟨hparts, rfl⟩ := run_pure_eq_some.mp h
    cases hparts
    exact classRead_of hv hg hc (.refl c) ht hw h₂ (.refl _) h₃
  · obtain ⟨i, c₂, h₂, h⟩ := run_bind_eq_some.mp h
    obtain ⟨u, c₃, h₃, h⟩ := run_bind_eq_some.mp h
    obtain ⟨u', c₄, h₄, h⟩ := run_bind_eq_some.mp h
    obtain ⟨ms', c₅, h₅, h⟩ := run_bind_eq_some.mp h
    obtain ⟨hparts, rfl⟩ := run_pure_eq_some.mp h
    cases hparts
    obtain ⟨ts₃, hts₃⟩ := Parser.reads _ h₃
    obtain ⟨ts₄, hts₄⟩ := Parser.reads _ h₄
    exact classRead_of hv hg hc (.refl c) ht hw h₂ (hts₃.trans hts₄) h₅

/-! ### Declarations -/

/-- A statement that has been read from the offset `start` on, up to its end. -/
structure DeclRead (source : Text) (start : ℕ) (c : Cursor) (s : Stmt) (c' : Cursor) : Prop where
  closes : Closes source c c'
  span : s.span = ⟨start, c'.last⟩
  laid : s.Laid source
  declared : Placed source s.span → Ink source s.span.start → (Dark source (s.span.stop - 1) → Sealed source s.span) →
    start ≤ c.start → s.DeclaredLaid source

omit hv hg in
theorem DeclRead.prepend {start : ℕ} {c c₁ c' : Cursor} {ts : List Token} {s : Stmt} (h : c.Reads ts c₁)
    (hle : c.start ≤ c₁.start) (h' : DeclRead source start c₁ s c') : DeclRead source start c s c' :=
  ⟨.prepend h h'.closes, h'.span, h'.laid, fun hp hi hd hs => h'.declared hp hi hd (hs.trans hle)⟩

omit hv hg in
theorem DeclRead.of_isPlain {start : ℕ} {c c' : Cursor} {s : Stmt} (hc : Closes source c c') (hplain : s.isPlain = true)
    (hspan : s.span = ⟨start, c'.last⟩) (hlaid : s.Laid source) : DeclRead source start c s c' :=
  ⟨hc, hspan, hlaid, fun hp hi _ _ => (Stmt.declaredLaid_of_isPlain hplain).mpr ⟨hp, Or.inl hi⟩⟩

omit hv hg in
theorem ClassRead.declRead {start : ℕ} {c c' : Cursor} {ident : Ident} {es : List Expr} {ms : List Member}
    (h : ClassRead source c ident ms c') :
    DeclRead source start c (.classDecl ⟨start, c'.last⟩ ident es ms) c' := by
  refine ⟨h.toShuts.closes, rfl, trivial, fun hp hi _ hs => ?_⟩
  rw [Stmt.DeclaredLaid]
  exact ⟨⟨hp, hi, h.dark⟩, h.named, hs.trans h.start, h.bodies⟩

omit hg in
theorem functionStatement_read {start : ℕ} {c c' : Cursor} {attrs : List Expr} {s : Stmt} (hc : c.On source)
    (h : (functionStatement g start attrs).run c = some (s, c')) : DeclRead source start c s c' := by
  obtain ⟨e, c₁, h₁, h⟩ := run_bind_eq_some.mp h
  obtain ⟨u, c₂, h₂, h⟩ := run_bind_eq_some.mp h
  obtain ⟨span, c₃, h₃, h⟩ := run_bind_eq_some.mp h
  obtain ⟨rfl, rfl⟩ := run_spanFrom_eq_some h₃
  obtain ⟨rfl, rfl⟩ := run_pure_eq_some.mp h
  obtain ⟨ts, hts⟩ := Parser.reads _ h₁
  refine .of_isPlain (.prepend hts ((hc.reads hts).shuts_terminator hv h₂).closes) rfl rfl ?_
  rw [Stmt.Laid]
  exact fun he => absurd he (plain_anonymousFunction _ _ _ h₁)

omit hv hg in
theorem run_seesClass_eq {c c' : Cursor} {b : Bool} (h : seesClass.run c = some (b, c')) : c = c' := by
  obtain ⟨k, c₁, h₁, h⟩ := run_bind_eq_some.mp h
  obtain ⟨k', c₂, h₂, h⟩ := run_bind_eq_some.mp h
  obtain ⟨-, rfl⟩ := run_kind_eq_some.mp h₁
  obtain ⟨-, rfl⟩ := run_kindAt_eq_some.mp h₂
  split at h <;> exact (run_pure_eq_some.mp h).2

omit hv hg in
theorem run_seesFunctionStatement_eq {c c' : Cursor} {b : Bool} (h : seesFunctionStatement.run c = some (b, c')) :
    c = c' := by
  obtain ⟨k, c₁, h₁, h⟩ := run_bind_eq_some.mp h
  obtain ⟨k', c₂, h₂, h⟩ := run_bind_eq_some.mp h
  obtain ⟨k'', c₃, h₃, h⟩ := run_bind_eq_some.mp h
  obtain ⟨-, rfl⟩ := run_kind_eq_some.mp h₁
  obtain ⟨-, rfl⟩ := run_kindAt_eq_some.mp h₂
  obtain ⟨-, rfl⟩ := run_kindAt_eq_some.mp h₃
  split at h <;> exact (run_pure_eq_some.mp h).2

theorem functionParts_read {c c' : Cursor} {es : List Expr} {b : Block} (hc : c.On source)
    (h : (functionParts g).run c = some ((es, b), c')) : Closes source c c' := by
  obtain ⟨amp, c₁, h₁, h⟩ := run_bind_eq_some.mp h
  obtain ⟨i, c₂, h₂, h⟩ := run_bind_eq_some.mp h
  obtain ⟨params, c₃, h₃, h⟩ := run_bind_eq_some.mp h
  obtain ⟨u, c₄, h₄, h⟩ := run_bind_eq_some.mp h
  obtain ⟨body, c₅, h₅, h⟩ := run_bind_eq_some.mp h
  obtain ⟨hparts, rfl⟩ := run_pure_eq_some.mp h
  obtain ⟨ts₁, hts₁⟩ := Parser.reads _ h₁
  obtain ⟨ts₂, hts₂⟩ := Parser.reads _ h₂
  obtain ⟨ts₃, hts₃⟩ := Parser.reads _ h₃
  obtain ⟨ts₄, hts₄⟩ := Parser.reads _ h₄
  have hts := hts₁.trans (hts₂.trans (hts₃.trans hts₄))
  exact .prepend hts (block_read hv hg (hc.reads hts) h₅).2.2.2.2

/-- **A declaration lies well**; if none comes next, nothing is read. -/
theorem declaration_read {start : ℕ} {c c' : Cursor} {attrs : List Expr} {o : Option Stmt} (hc : c.On source)
    (h : (declaration g start attrs).run c = some (o, c')) :
    (o = none ∧ c = c') ∨ ∃ s, o = some s ∧ DeclRead source start c s c' := by
  have classLike : ∀ {p : Parser (Ident × List Member)} {k : Ident × List Member → Parser (Option Stmt)} {c₁ : Cursor},
      (∀ {ident ms c₂}, p.run c₁ = some ((ident, ms), c₂) → ClassRead source c ident ms c₂) →
      (∀ ident ms, k (ident, ms) = do return some (.classDecl (← spanFrom start) ident attrs ms)) →
      (p >>= k).run c₁ = some (o, c') → ∃ s, o = some s ∧ DeclRead source start c s c' := by
    intro p k c₁ hp hk h
    obtain ⟨⟨ident, ms⟩, c₂, h₂, h⟩ := run_bind_eq_some.mp h
    rw [hk] at h
    obtain ⟨span, c₃, h₃, h⟩ := run_bind_eq_some.mp h
    obtain ⟨rfl, rfl⟩ := run_spanFrom_eq_some h₃
    obtain ⟨rfl, rfl⟩ := run_pure_eq_some.mp h
    exact ⟨_, rfl, (hp h₂).declRead⟩
  obtain ⟨b, c₁, h₁, h⟩ := run_bind_eq_some.mp h
  obtain rfl := run_seesClass_eq h₁
  split at h
  · exact Or.inr (classLike (classParts_read hv hg hc) (fun _ _ => rfl) h)
  obtain ⟨b₂, c₂, h₂, h⟩ := run_bind_eq_some.mp h
  rcases run_acceptKind_eq_some h₂ with ⟨rfl, t, ht, hw⟩ | ⟨rfl, rfl, -⟩
  · exact Or.inr (classLike (classLike_read hv hg (Or.inl rfl) hc ht hw) (fun _ _ => rfl) h)
  obtain ⟨b₃, c₃, h₃, h⟩ := run_bind_eq_some.mp h
  rcases run_acceptKind_eq_some h₃ with ⟨rfl, t, ht, hw⟩ | ⟨rfl, rfl, -⟩
  · exact Or.inr (classLike (classLike_read hv hg (Or.inr (Or.inl rfl)) hc ht hw) (fun _ _ => rfl) h)
  obtain ⟨b₄, c₄, h₄, h⟩ := run_bind_eq_some.mp h
  rcases run_acceptKind_eq_some h₄ with ⟨rfl, t, ht, hw⟩ | ⟨rfl, rfl, -⟩
  · exact Or.inr (classLike (classLike_read hv hg (Or.inr (Or.inr rfl)) hc ht hw) (fun _ _ => rfl) h)
  obtain ⟨b₅, c₅, h₅, h⟩ := run_bind_eq_some.mp h
  obtain rfl := run_seesFunctionStatement_eq h₅
  split at h
  · obtain ⟨s, c₆, h₆, h⟩ := run_bind_eq_some.mp h
    obtain ⟨rfl, rfl⟩ := run_pure_eq_some.mp h
    exact Or.inr ⟨s, rfl, functionStatement_read hv hc h₆⟩
  obtain ⟨b₆, c₆, h₆, h⟩ := run_bind_eq_some.mp h
  rcases run_acceptKind_eq_some h₆ with ⟨rfl, t, ht, -⟩ | ⟨rfl, rfl, -⟩
  · obtain ⟨⟨params, body⟩, c₇, h₇, h⟩ := run_bind_eq_some.mp h
    obtain ⟨span, c₈, h₈, h⟩ := run_bind_eq_some.mp h
    obtain ⟨rfl, rfl⟩ := run_spanFrom_eq_some h₈
    obtain ⟨rfl, rfl⟩ := run_pure_eq_some.mp h
    have hclose := functionParts_read hv hg (hc.reads ht) h₇
    exact Or.inr ⟨_, rfl, .of_isPlain (.prepend ht hclose) rfl rfl trivial⟩
  obtain ⟨b₇, c₇, h₇, h⟩ := run_bind_eq_some.mp h
  rcases run_acceptKind_eq_some h₇ with ⟨rfl, t, ht, -⟩ | ⟨rfl, rfl, -⟩
  · obtain ⟨values, c₈, h₈, h⟩ := run_bind_eq_some.mp h
    obtain ⟨u, c₉, h₉, h⟩ := run_bind_eq_some.mp h
    obtain ⟨span, c₁₀, h₁₀, h⟩ := run_bind_eq_some.mp h
    obtain ⟨rfl, rfl⟩ := run_spanFrom_eq_some h₁₀
    obtain ⟨rfl, rfl⟩ := run_pure_eq_some.mp h
    obtain ⟨ts, hts⟩ := Parser.reads _ h₈
    have hshuts := ((hc.reads ht).reads hts).shuts_terminator hv h₉
    exact Or.inr ⟨_, rfl, .of_isPlain (.prepend (ht.trans hts) hshuts.closes) rfl rfl trivial⟩
  · obtain ⟨rfl, rfl⟩ := run_pure_eq_some.mp h
    exact Or.inl ⟨rfl, rfl⟩

/-! ### Other statements -/

theorem declareParts_read {c c' : Cursor} {es : List Expr} {ss : List Stmt} (hc : c.On source)
    (h : (declareParts g).run c = some ((es, ss), c')) : Closes source c c' := by
  obtain ⟨u, c₁, h₁, h⟩ := run_bind_eq_some.mp h
  obtain ⟨values, c₂, h₂, h⟩ := run_bind_eq_some.mp h
  have hc₂ := sepTo_read hv (hc.run hv h₁).1 h₂
  obtain ⟨ts₁, hts₁⟩ := Parser.reads _ h₁
  obtain ⟨ts₂, hts₂⟩ := Parser.reads _ h₂
  refine .prepend (hts₁.trans hts₂) ?_
  obtain ⟨b, c₃, h₃, h⟩ := run_bind_eq_some.mp h
  rcases run_acceptKind_eq_some h₃ with ⟨rfl, t, ht, -⟩ | ⟨rfl, rfl, -⟩
  · obtain ⟨ss', c₄, h₄, h⟩ := run_bind_eq_some.mp h
    obtain ⟨u', c₅, h₅, h⟩ := run_bind_eq_some.mp h
    obtain ⟨u'', c₆, h₆, h⟩ := run_bind_eq_some.mp h
    obtain ⟨hparts, rfl⟩ := run_pure_eq_some.mp h
    obtain ⟨ts₄, hts₄⟩ := Parser.reads _ h₄
    obtain ⟨ts₅, hts₅⟩ := Parser.reads _ h₅
    have hts := ht.trans (hts₄.trans hts₅)
    exact .prepend hts ((hc₂.on.reads hts).shuts_terminator hv h₆).closes
  · obtain ⟨k, c₄, h₄, h⟩ := run_bind_eq_some.mp h
    obtain ⟨-, rfl⟩ := run_kind_eq_some.mp h₄
    split at h
    case h_3 =>
      obtain ⟨s, c₅, h₅, h⟩ := run_bind_eq_some.mp h
      obtain ⟨hparts, rfl⟩ := run_pure_eq_some.mp h
      exact (single_read hg hc₂ h₅).2
    all_goals
      obtain ⟨u', c₅, h₅, h⟩ := run_bind_eq_some.mp h
      obtain ⟨hparts, rfl⟩ := run_pure_eq_some.mp h
      exact (hc₂.on.shuts_terminator hv h₅).closes

omit hg in
/-- An expression with its terminator; one that can be a notice holds a sign. -/
theorem expressionStatement_read {start : ℕ} {c c' : Cursor} {s : Stmt} (hc : c.On source) (hstart : start ≤ c.start)
    (hx : ∀ {level c e c'}, (g.expr level).run c = some (e, c') →
      (∃ k, c.front = some k ∧ startsOperand k = true) ∧ (e.IsCandidate → SignRead c c'))
    (h : (expressionStatement g start).run c = some (s, c')) :
    DeclRead source start c s c' ∧ ∃ k, c.front = some k ∧ startsOperand k = true := by
  obtain ⟨e, c₁, h₁, h⟩ := run_bind_eq_some.mp h
  obtain ⟨u, c₂, h₂, h⟩ := run_bind_eq_some.mp h
  obtain ⟨span, c₃, h₃, h⟩ := run_bind_eq_some.mp h
  obtain ⟨rfl, rfl⟩ := run_spanFrom_eq_some h₃
  obtain ⟨rfl, rfl⟩ := run_pure_eq_some.mp h
  obtain ⟨⟨k, hk, hstarts⟩, hsign⟩ := hx h₁
  obtain ⟨ts, hts⟩ := Parser.reads _ h₁
  obtain ⟨hc₁, -⟩ := hc.run hv h₁
  have hle := (hc₁.run hv h₂).2
  refine ⟨.of_isPlain (.prepend hts (hc₁.shuts_terminator hv h₂).closes) rfl rfl ?_, k, hk, hstarts⟩
  rw [Stmt.Laid]
  intro he
  obtain ⟨us, hus, t, ht, sign, htk, hne⟩ := hsign he
  obtain ⟨hts, hlo, hhi⟩ := hc.sound_of_mem hv hus ht
  exact hts.marked_of_sign htk hne (hstart.trans hlo) (hhi.trans hle)

end Rules

end Grammar

end Polyfill.Source
