import Polyfill.Proofs.Source.Statements

/-! # What control structures are read from

The bodies of a control structure come one after the other. A list without braces of its own stands between a
colon, or a semicolon in a `switch`, and a keyword or a closing brace.

* `PartsRead`: what is known of the bodies of a control structure.
* `controlParts_read`: this holds of every control structure. -/

namespace Polyfill.Source

open Text Scan Source.Parser

/-- Bodies that have been read between two cursors, up to the end of a statement. -/
structure PartsRead (source : Text) (c : Cursor) (bs : List Body) (c' : Cursor) : Prop where
  bodies : bodiesLaid source c.last c'.last bs
  closes : Closes source c c'

theorem PartsRead.prepend {source : Text} (hv : Encoded source) {c c₁ c' : Cursor} {ts : List Token} {bs : List Body}
    (hc : c.On source) (h : c.Reads ts c₁) (h' : PartsRead source c₁ bs c') : PartsRead source c bs c' :=
  ⟨h'.bodies.mono (hc.le hv h) le_rfl, .prepend h h'.closes⟩

/-! ### Bodies in a row -/

theorem bodiesLaid_of_chain {α : Type} {source : Text} {R : Cursor → α → Cursor → Prop} (body : α → Body)
    (f : Cursor → ℕ) (hR : ∀ c a c', R c a c' → (body a).Laid source (f c) (f c')) :
    ∀ {as : List α} {c c' : Cursor}, Chain R c as c' → bodiesLaid source (f c) (f c') (as.map body)
  | [], c, c', h => by
    have h' : c = c' := h
    rw [List.map_nil, bodiesLaid, h']
  | a :: as, c, c', ⟨c₁, ha, h⟩ => by
    rw [List.map_cons, bodiesLaid]
    exact ⟨f c₁, hR _ _ _ ha, bodiesLaid_of_chain body f hR h⟩

theorem closes_of_chain {α : Type} {source : Text} {R : Cursor → α → Cursor → Prop}
    (hR : ∀ {c a c'}, R c a c' → Closes source c c') :
    ∀ {as : List α} {c c' : Cursor}, Chain R c as c' → c = c' ∨ Closes source c c'
  | [], _, _, h => Or.inl h
  | a :: as, c, c', ⟨c₁, ha, h⟩ => by
    rcases closes_of_chain hR h with rfl | hclose
    · exact Or.inr (hR ha)
    · obtain ⟨t, ts, hts⟩ := (hR ha).reads
      exact Or.inr (.prepend hts hclose)

/-- A list without braces, between a sign and the next token. -/
theorem listBody {source : Text} (hv : Encoded source) {c c₁ c₂ : Cursor} {t : Token} {s : String} {ss : List Stmt}
    (hc : c.On source) (ht : c.Reads [t] c₁) (hk : t.kind = .sign s) (hc₂ : c₂.On source)
    (hlist : listLaid source c₁.last c₂.last ss) (hend : ∃ k, c₂.front = some k ∧ k.isVisible = true) :
    (Body.list ss).Laid source c.last c₂.nextStop := by
  obtain ⟨hts, hle, -⟩ := hc.token hv ht
  obtain ⟨k, hk₂, hvis⟩ := hend
  obtain ⟨u, c₃, hu, rfl⟩ := Cursor.exists_reads hk₂
  obtain ⟨hus, hule, -⟩ := hc₂.token hv hu
  have hink := hus.ink hvis
  have hsolid := hts.solid_of_sign hk
  rw [Body.Laid]
  refine ⟨t.start, u.start, hle, ?_, hsolid.first, hink.1, hlist.mono ?_ hule⟩
  · rw [hu.nextStop]
    exact hink.2
  · rw [ht.last]
    exact hsolid.lt

namespace Grammar

theorem condition_read {source : Text} (hv : Encoded source) {g : Rules} {c c' : Cursor} {e : Expr} (hc : c.On source)
    (h : (condition g).run c = some (e, c')) : c'.InCode source := by
  obtain ⟨u, c₁, h₁, h⟩ := run_bind_eq_some.mp h
  obtain ⟨e', c₂, h₂, h⟩ := run_bind_eq_some.mp h
  obtain ⟨u', c₃, h₃, h⟩ := run_bind_eq_some.mp h
  obtain ⟨rfl, rfl⟩ := run_pure_eq_some.mp h
  obtain ⟨t, ht, hk⟩ := run_expect_eq_some h₃
  exact ((hc.run hv h₁).1.run hv h₂).1.inCode_sign hv ht hk

section Rules

variable {source : Text} (hv : Encoded source) {g : Rules}
  (hg : ∀ {c s c'}, c.On source → g.statement.run c = some (s, c') → StmtRead source c s c')
include hv hg

omit hv in
theorem single_read {c c' : Cursor} {s : Stmt} (hc : c.InCode source) (h : g.statement.run c = some (s, c')) :
    (Body.single s).Laid source c.last c'.last ∧ Closes source c c' := by
  have hs := hg hc.on h
  refine ⟨?_, (hs.code hc.front).1⟩
  rw [Body.Laid]
  exact ⟨hs.laid, hs.start, hs.placed, hs.stop.le⟩

theorem blockBody_read {c c' : Cursor} {b : Block} (hc : c.On source) (h : (block g).run c = some (b, c')) :
    (Body.block b).Laid source c.last c'.last ∧ Closes source c c' := by
  obtain ⟨hb, -, hlo, hhi, hclose⟩ := block_read hv hg hc h
  refine ⟨?_, hclose⟩
  rw [Body.Laid]
  exact ⟨hb, hlo, hhi.le⟩

theorem statementsTo_read {c c' : Cursor} {words : List String} {ss : List Stmt} (hc : c.On source)
    (hcode : CodeBefore source c.last)
    (h : (statementsTo g words).run c = some (ss, c')) :
    listLaid source c.last c'.last ss ∧ c'.On source ∧ ∃ k, c'.front = some k ∧ k.isVisible = true := by
  obtain ⟨hchain, k, hk, hstop⟩ := statements_read hg hc h
  have hword : ∃ w, k = .word w := by
    split at hstop
    · exact ⟨_, rfl⟩
    · cases hstop
  obtain ⟨w, rfl⟩ := hword
  exact ⟨listLaid_of_chain hv ⟨_, hk, rfl⟩ hc hcode hchain, (hc.run hv h).1, _, hk, rfl⟩

theorem loopBody_read {c c' : Cursor} {close : String} {b : Body} (hc : c.InCode source)
    (h : (loopBody g close).run c = some (b, c')) : PartsRead source c [b] c' := by
  obtain ⟨colon, c₁, h₁, h⟩ := run_bind_eq_some.mp h
  rcases run_acceptKind_eq_some h₁ with ⟨rfl, t, ht, hk⟩ | ⟨rfl, rfl, -⟩
  · obtain ⟨ss, c₂, h₂, h⟩ := run_bind_eq_some.mp h
    obtain ⟨u, c₃, h₃, h⟩ := run_bind_eq_some.mp h
    obtain ⟨u', c₄, h₄, h⟩ := run_bind_eq_some.mp h
    obtain ⟨rfl, rfl⟩ := run_pure_eq_some.mp h
    have hc₁ := hc.on.inCode_sign hv ht hk
    obtain ⟨hlist, hc₂, hend⟩ := statementsTo_read hv hg hc₁.on hc₁.behind h₂
    obtain ⟨w, hw, hwk⟩ := run_expectWord_eq_some h₃
    obtain ⟨ts, hts⟩ := Parser.reads _ h₂
    have hc₃ := hc₂.reads hw
    refine ⟨.single ((listBody hv hc.on ht hk hc₂ hlist hend).mono le_rfl ?_), ?_⟩
    · rw [hw.nextStop, ← show c₃.last = w.stop from hw.last]
      exact (hc₃.run hv h₄).2
    · exact .prepend ht (.prepend hts (.prepend hw (hc₃.shuts_terminator hv h₄).closes))
  · obtain ⟨s, c₂, h₂, h⟩ := run_bind_eq_some.mp h
    obtain ⟨rfl, rfl⟩ := run_pure_eq_some.mp h
    obtain ⟨hs, hclose⟩ := single_read hg hc h₂
    exact ⟨.single hs, hclose⟩

/-- The further branches of an `if`, whose bodies are single statements behind a keyword. -/
theorem branches_read {c c' : Cursor} {parts : List (List Expr × Body)} (hc : c.On source)
    (h : (branches g).run c = some (parts, c')) :
    bodiesLaid source c.last c'.last (parts.map Prod.snd) ∧ (c = c' ∨ Closes source c c') := by
  obtain ⟨elseIfs, c₁, h₁, h⟩ := run_bind_eq_some.mp h
  obtain ⟨hchain, hc₁⟩ := run_many_chain
    (P := fun c a c' => a.2.Laid source c.last c'.last ∧ Closes source c c') (fun {c o c'} hc hr => by
      rcases run_ifWord_eq_some hr with hnone | ⟨t, c₂, ht, -, h⟩
      · exact Or.inl hnone
      · obtain ⟨e, c₃, h₃, h⟩ := run_bind_eq_some.mp h
        obtain ⟨s, c₄, h₄, h⟩ := run_bind_eq_some.mp h
        obtain ⟨rfl, rfl⟩ := run_pure_eq_some.mp h
        obtain ⟨ts, hts⟩ := Parser.reads _ h₃
        obtain ⟨hs, hclose⟩ := single_read hg (condition_read hv (hc.reads ht) h₃) h₄
        exact Or.inr ⟨_, rfl, hs.mono (hc.le hv (ht.trans hts)) le_rfl, .prepend (ht.trans hts) hclose⟩) hc h₁
  have hbodies := bodiesLaid_of_chain Prod.snd Cursor.last (fun _ _ _ h => h.1) hchain
  have hcloses : c = c₁ ∨ Closes source c c₁ := closes_of_chain (fun h => h.2) hchain
  obtain ⟨b, c₂, h₂, h⟩ := run_bind_eq_some.mp h
  rcases run_acceptKind_eq_some h₂ with ⟨rfl, t, ht, hk⟩ | ⟨rfl, rfl, -⟩
  · obtain ⟨s, c₃, h₃, h⟩ := run_bind_eq_some.mp h
    obtain ⟨rfl, rfl⟩ := run_pure_eq_some.mp h
    obtain ⟨hs, hclose⟩ := single_read hg (hc₁.inCode_word hv ht hk) h₃
    obtain ⟨ts, hts⟩ := Parser.reads _ h₁
    rw [List.map_append]
    exact ⟨hbodies.append (.single (hs.mono (hc₁.le hv ht) le_rfl)), Or.inr (.prepend (hts.trans ht) hclose)⟩
  · obtain ⟨rfl, rfl⟩ := run_pure_eq_some.mp h
    exact ⟨hbodies, hcloses⟩

theorem colonList_read {c c₁ c' : Cursor} {t : Token} {words : List String} {ss : List Stmt} (hc : c.On source)
    (ht : c.Reads [t] c₁) (hk : t.kind = .sign ":") (h : (statementsTo g words).run c₁ = some (ss, c')) :
    (Body.list ss).Laid source c.last c'.nextStop ∧ c'.On source := by
  have hc₁ := hc.inCode_sign hv ht hk
  obtain ⟨hlist, hc', hend⟩ := statementsTo_read hv hg hc₁.on hc₁.behind h
  exact ⟨listBody hv hc ht hk hc' hlist hend, hc'⟩

/-- The further branches of an `if`, whose bodies are lists behind colons. -/
theorem colonBranches_read {c c' : Cursor} {parts : List (List Expr × Body)} (hc : c.On source)
    (h : (colonBranches g).run c = some (parts, c')) :
    bodiesLaid source c.nextStop c'.nextStop (parts.map Prod.snd) ∧ c'.On source := by
  obtain ⟨elseIfs, c₁, h₁, h⟩ := run_bind_eq_some.mp h
  obtain ⟨hchain, hc₁⟩ := run_many_chain
    (P := fun c a c' => a.2.Laid source c.nextStop c'.nextStop) (fun {c o c'} hc hr => by
      rcases run_ifWord_eq_some hr with hnone | ⟨t, c₂, ht, -, h⟩
      · exact Or.inl hnone
      · obtain ⟨e, c₃, h₃, h⟩ := run_bind_eq_some.mp h
        obtain ⟨u, c₄, h₄, h⟩ := run_bind_eq_some.mp h
        obtain ⟨ss, c₅, h₅, h⟩ := run_bind_eq_some.mp h
        obtain ⟨rfl, rfl⟩ := run_pure_eq_some.mp h
        obtain ⟨x, hx, hxk⟩ := run_expect_eq_some h₄
        obtain ⟨hc₃, hle⟩ := (hc.reads ht).run hv h₃
        refine Or.inr ⟨_, rfl, (colonList_read hv hg hc₃ hx hxk h₅).1.mono ?_ le_rfl⟩
        rwa [ht.nextStop, ← show c₂.last = t.stop from ht.last]) hc h₁
  have hbodies := bodiesLaid_of_chain Prod.snd Cursor.nextStop (fun _ _ _ h => h) hchain
  obtain ⟨b, c₂, h₂, h⟩ := run_bind_eq_some.mp h
  rcases run_acceptKind_eq_some h₂ with ⟨rfl, t, ht, hk⟩ | ⟨rfl, rfl, -⟩
  · obtain ⟨u, c₃, h₃, h⟩ := run_bind_eq_some.mp h
    obtain ⟨ss, c₄, h₄, h⟩ := run_bind_eq_some.mp h
    obtain ⟨rfl, rfl⟩ := run_pure_eq_some.mp h
    obtain ⟨x, hx, hxk⟩ := run_expect_eq_some h₃
    obtain ⟨hlist, hc₄⟩ := colonList_read hv hg (hc₁.reads ht) hx hxk h₄
    rw [List.map_append]
    refine ⟨hbodies.append (.single (hlist.mono ?_ le_rfl)), hc₄⟩
    rw [ht.nextStop, ← show c₂.last = t.stop from ht.last]
  · obtain ⟨rfl, rfl⟩ := run_pure_eq_some.mp h
    exact ⟨hbodies, hc₁⟩

theorem ifParts_read {c c' : Cursor} {es : List Expr} {bs : List Body} (hc : c.On source)
    (h : (ifParts g).run c = some ((es, bs), c')) : PartsRead source c bs c' := by
  obtain ⟨e, c₁, h₁, h⟩ := run_bind_eq_some.mp h
  have hc₁ := condition_read hv hc h₁
  obtain ⟨ts, hts⟩ := Parser.reads _ h₁
  refine .prepend hv hc hts ?_
  obtain ⟨b, c₂, h₂, h⟩ := run_bind_eq_some.mp h
  rcases run_acceptKind_eq_some h₂ with ⟨rfl, t, ht, hk⟩ | ⟨rfl, rfl, -⟩
  · obtain ⟨first, c₃, h₃, h⟩ := run_bind_eq_some.mp h
    obtain ⟨more, c₄, h₄, h⟩ := run_bind_eq_some.mp h
    obtain ⟨u, c₅, h₅, h⟩ := run_bind_eq_some.mp h
    obtain ⟨u', c₆, h₆, h⟩ := run_bind_eq_some.mp h
    obtain ⟨hparts, rfl⟩ := run_pure_eq_some.mp h
    cases hparts
    obtain ⟨hfirst, hc₃⟩ := colonList_read hv hg hc₁.on ht hk h₃
    obtain ⟨hmore, hc₄⟩ := colonBranches_read hv hg hc₃ h₄
    obtain ⟨w, hw, -⟩ := run_expectWord_eq_some h₅
    obtain ⟨us, hus⟩ := Parser.reads _ h₃
    obtain ⟨vs, hvs⟩ := Parser.reads _ h₄
    have hc₅ := hc₄.reads hw
    refine ⟨?_, .prepend (ht.trans (hus.trans (hvs.trans hw))) (hc₅.shuts_terminator hv h₆).closes⟩
    rw [bodiesLaid]
    refine ⟨_, hfirst, hmore.mono le_rfl ?_⟩
    rw [hw.nextStop, ← show c₅.last = w.stop from hw.last]
    exact (hc₅.run hv h₆).2
  · obtain ⟨first, c₃, h₃, h⟩ := run_bind_eq_some.mp h
    obtain ⟨more, c₄, h₄, h⟩ := run_bind_eq_some.mp h
    obtain ⟨hparts, rfl⟩ := run_pure_eq_some.mp h
    cases hparts
    obtain ⟨hfirst, hclose⟩ := single_read hg hc₁ h₃
    obtain ⟨hmore, hclose'⟩ := branches_read hv hg (hc₁.on.run hv h₃).1 h₄
    refine ⟨?_, ?_⟩
    · rw [bodiesLaid]
      exact ⟨_, hfirst, hmore⟩
    · rcases hclose' with rfl | hclose'
      · exact hclose
      · obtain ⟨us, hus⟩ := Parser.reads _ h₃
        exact .prepend hus hclose'

theorem whileParts_read {c c' : Cursor} {es : List Expr} {bs : List Body} (hc : c.On source)
    (h : (whileParts g).run c = some ((es, bs), c')) : PartsRead source c bs c' := by
  obtain ⟨e, c₁, h₁, h⟩ := run_bind_eq_some.mp h
  obtain ⟨b, c₂, h₂, h⟩ := run_bind_eq_some.mp h
  obtain ⟨hparts, rfl⟩ := run_pure_eq_some.mp h
  cases hparts
  obtain ⟨ts, hts⟩ := Parser.reads _ h₁
  exact .prepend hv hc hts (loopBody_read hv hg (condition_read hv hc h₁) h₂)

theorem doParts_read {c c' : Cursor} {es : List Expr} {bs : List Body} (hc : c.InCode source)
    (h : (doParts g).run c = some ((es, bs), c')) : PartsRead source c bs c' := by
  obtain ⟨s, c₁, h₁, h⟩ := run_bind_eq_some.mp h
  obtain ⟨u, c₂, h₂, h⟩ := run_bind_eq_some.mp h
  obtain ⟨e, c₃, h₃, h⟩ := run_bind_eq_some.mp h
  obtain ⟨u', c₄, h₄, h⟩ := run_bind_eq_some.mp h
  obtain ⟨hparts, rfl⟩ := run_pure_eq_some.mp h
  cases hparts
  obtain ⟨hc₁, -⟩ := hc.on.run hv h₁
  obtain ⟨hc₂, hle₂⟩ := hc₁.run hv h₂
  obtain ⟨hc₃, hle₃⟩ := hc₂.run hv h₃
  obtain ⟨hc₄, hle₄⟩ := hc₃.run hv h₄
  obtain ⟨ts, hts⟩ := Parser.reads _ h₁
  obtain ⟨us, hus⟩ := Parser.reads _ h₂
  obtain ⟨vs, hvs⟩ := Parser.reads _ h₃
  refine ⟨.single ((single_read hg hc h₁).1.mono le_rfl (by omega)), ?_⟩
  exact .prepend (hts.trans (hus.trans hvs)) (hc₃.shuts_terminator hv h₄).closes

omit hg in
theorem sepTo_read {α : Type} {c c' : Cursor} {close : String} {item : Parser α} {as : List α} (hc : c.On source)
    (h : (sepTo close item).run c = some (as, c')) : c'.InCode source := by
  obtain ⟨as', c₁, h₁, h⟩ := run_bind_eq_some.mp h
  obtain ⟨u, c₂, h₂, h⟩ := run_bind_eq_some.mp h
  obtain ⟨rfl, rfl⟩ := run_pure_eq_some.mp h
  obtain ⟨t, ht, hk⟩ := run_expect_eq_some h₂
  exact (hc.run hv h₁).1.inCode_sign hv ht hk

theorem forParts_read {c c' : Cursor} {es : List Expr} {bs : List Body} (hc : c.On source)
    (h : (forParts g).run c = some ((es, bs), c')) : PartsRead source c bs c' := by
  obtain ⟨u, c₁, h₁, h⟩ := run_bind_eq_some.mp h
  obtain ⟨starts, c₂, h₂, h⟩ := run_bind_eq_some.mp h
  obtain ⟨conditions, c₃, h₃, h⟩ := run_bind_eq_some.mp h
  obtain ⟨steps, c₄, h₄, h⟩ := run_bind_eq_some.mp h
  obtain ⟨b, c₅, h₅, h⟩ := run_bind_eq_some.mp h
  obtain ⟨hparts, rfl⟩ := run_pure_eq_some.mp h
  cases hparts
  obtain ⟨ts₁, hts₁⟩ := Parser.reads _ h₁
  obtain ⟨ts₂, hts₂⟩ := Parser.reads _ h₂
  obtain ⟨ts₃, hts₃⟩ := Parser.reads _ h₃
  obtain ⟨ts₄, hts₄⟩ := Parser.reads _ h₄
  have hc₄ := sepTo_read hv (hc.reads (hts₁.trans (hts₂.trans hts₃))) h₄
  exact .prepend hv hc (hts₁.trans (hts₂.trans (hts₃.trans hts₄))) (loopBody_read hv hg hc₄ h₅)

theorem foreachParts_read {c c' : Cursor} {es : List Expr} {bs : List Body} (hc : c.On source)
    (h : (foreachParts g).run c = some ((es, bs), c')) : PartsRead source c bs c' := by
  -- Behind the targets comes the closing parenthesis, and then the body.
  have htail : ∀ {c₁ : Cursor} {ts : List Token} {subject : Expr} {targets : List Expr}, c.Reads ts c₁ → (do
      expect ")"
      return (subject :: targets, [← loopBody g "endforeach"]) : Parser (List Expr × List Body)).run c₁ =
        some ((es, bs), c') → PartsRead source c bs c' := by
    intro c₁ ts subject targets hts h
    obtain ⟨u, c₂, h₂, h⟩ := run_bind_eq_some.mp h
    obtain ⟨b, c₃, h₃, h⟩ := run_bind_eq_some.mp h
    obtain ⟨hparts, rfl⟩ := run_pure_eq_some.mp h
    cases hparts
    obtain ⟨t, ht, hk⟩ := run_expect_eq_some h₂
    have hc₂ := (hc.reads hts).inCode_sign hv ht hk
    exact .prepend hv hc (hts.trans ht) (loopBody_read hv hg hc₂ h₃)
  obtain ⟨u, c₁, h₁, h⟩ := run_bind_eq_some.mp h
  obtain ⟨subject, c₂, h₂, h⟩ := run_bind_eq_some.mp h
  obtain ⟨u', c₃, h₃, h⟩ := run_bind_eq_some.mp h
  obtain ⟨first, c₄, h₄, h⟩ := run_bind_eq_some.mp h
  obtain ⟨arrow, c₅, h₅, h⟩ := run_bind_eq_some.mp h
  obtain ⟨ts₁, hts₁⟩ := Parser.reads _ h₁
  obtain ⟨ts₂, hts₂⟩ := Parser.reads _ h₂
  obtain ⟨ts₃, hts₃⟩ := Parser.reads _ h₃
  obtain ⟨ts₄, hts₄⟩ := Parser.reads _ h₄
  obtain ⟨ts₅, hts₅⟩ := Parser.reads _ h₅
  have hts := hts₁.trans (hts₂.trans (hts₃.trans (hts₄.trans hts₅)))
  split at h
  · obtain ⟨second, c₆, h₆, h⟩ := run_bind_eq_some.mp h
    obtain ⟨targets, c₇, h₇, h⟩ := run_bind_eq_some.mp h
    obtain ⟨rfl, rfl⟩ := run_pure_eq_some.mp h₇
    obtain ⟨ts₆, hts₆⟩ := Parser.reads _ h₆
    exact htail (hts.trans hts₆) h
  · obtain ⟨targets, c₆, h₆, h⟩ := run_bind_eq_some.mp h
    obtain ⟨rfl, rfl⟩ := run_pure_eq_some.mp h₆
    exact htail hts h

omit hv hg in
theorem visible_of_caseEnd {k : TokenKind}
    (h : (isSwitchEnd k || k == .word "case" || k == .word "default") = true) :
    k.endsList = true ∧ k.isVisible = true := by
  simp only [isSwitchEnd, Bool.or_eq_true, beq_iff_eq] at h
  rcases h with ((rfl | rfl) | rfl) | rfl <;> exact ⟨rfl, rfl⟩

/-- A case of a `switch`: a list between its colon or semicolon and the next case. -/
theorem switchCase_read {c c' : Cursor} {a : List Expr × Body} (hc : c.On source)
    (h : (switchCase g).run c = some (a, c')) : a.2.Laid source c.nextStop c'.nextStop := by
  have hlist : ∀ {c₁ c₂ : Cursor} {t : Token} {s : String} {value : List Expr}, c₁.On source → c.nextStop ≤ c₁.last →
      c₁.Reads [t] c₂ → t.kind = .sign s → (do
        let statements ← manyUntil (fun k => isSwitchEnd k || k == .word "case" || k == .word "default") g.statement
        return (value, .list statements) : Parser (List Expr × Body)).run c₂ = some (a, c') →
      a.2.Laid source c.nextStop c'.nextStop := by
    intro c₁ c₂ t s value hc₁ hle ht hk h
    obtain ⟨ss, c₃, h₃, h⟩ := run_bind_eq_some.mp h
    obtain ⟨rfl, rfl⟩ := run_pure_eq_some.mp h
    have hc₂ := hc₁.reads ht
    have hcode := hc₁.codeBefore hv ht (by rw [hk]; rfl)
    obtain ⟨hchain, k, hfront, hstop⟩ := statements_read hg hc₂ h₃
    obtain ⟨hends, hvis⟩ := visible_of_caseEnd hstop
    have hl := listLaid_of_chain hv ⟨k, hfront, hends⟩ hc₂ hcode hchain
    exact (listBody hv hc₁ ht hk (hc₂.run hv h₃).1 hl ⟨k, hfront, hvis⟩).mono hle le_rfl
  have htail : ∀ {c₁ : Cursor} {value : List Expr}, c₁.On source → c.nextStop ≤ c₁.last → (do
      unless ← accept ":" do
        expect ";"
      let statements ← manyUntil (fun k => isSwitchEnd k || k == .word "case" || k == .word "default") g.statement
      return (value, .list statements) : Parser (List Expr × Body)).run c₁ = some (a, c') →
      a.2.Laid source c.nextStop c'.nextStop := by
    intro c₁ value hc₁ hle h
    obtain ⟨b, c₂, h₂, h⟩ := run_bind_eq_some.mp h
    rcases run_acceptKind_eq_some h₂ with ⟨rfl, t, ht, hk⟩ | ⟨rfl, rfl, -⟩
    · exact hlist hc₁ hle ht hk h
    · obtain ⟨u, c₃, h₃, h⟩ := run_bind_eq_some.mp h
      obtain ⟨t, ht, hk⟩ := run_expect_eq_some h₃
      exact hlist hc₁ hle ht hk h
  obtain ⟨b, c₁, h₁, h⟩ := run_bind_eq_some.mp h
  rcases run_acceptKind_eq_some h₁ with ⟨rfl, t, ht, -⟩ | ⟨rfl, rfl, -⟩
  · obtain ⟨value, c₂, h₂, h⟩ := run_bind_eq_some.mp h
    obtain ⟨rfl, rfl⟩ := run_pure_eq_some.mp h₂
    refine htail (hc.reads ht) ?_ h
    rw [ht.nextStop, ← show c₁.last = t.stop from ht.last]
  · obtain ⟨u, c₂, h₂, h⟩ := run_bind_eq_some.mp h
    obtain ⟨e, c₃, h₃, h⟩ := run_bind_eq_some.mp h
    obtain ⟨value, c₄, h₄, h⟩ := run_bind_eq_some.mp h
    obtain ⟨rfl, rfl⟩ := run_pure_eq_some.mp h₄
    obtain ⟨t, ht, -⟩ := run_expectWord_eq_some h₂
    obtain ⟨hc₃, hle⟩ := (hc.reads ht).run hv h₃
    refine htail hc₃ ?_ h
    rwa [ht.nextStop, ← show c₂.last = t.stop from ht.last]

theorem switchCases_read {c c' : Cursor} {parts : List (List Expr × Body)} (hc : c.On source)
    (h : (switchCases g).run c = some (parts, c')) :
    bodiesLaid source c.last c'.nextStop (parts.map Prod.snd) ∧ c'.On source := by
  obtain ⟨b, c₁, h₁, h⟩ := run_bind_eq_some.mp h
  obtain ⟨hc₁, hle⟩ := hc.run hv h₁
  obtain ⟨hchain, -⟩ := run_manyUntil_eq_some h
  obtain ⟨hcases, hc'⟩ := hchain.mono (S := fun c a c' => a.2.Laid source c.nextStop c'.nextStop)
    (fun hc hr => ⟨switchCase_read hv hg hc hr, (hc.run hv hr).1⟩) hc₁
  refine ⟨(bodiesLaid_of_chain Prod.snd Cursor.nextStop (fun _ _ _ h => h) hcases).mono ?_ le_rfl, hc'⟩
  exact hle.trans (hc₁.le_nextStop hv)

theorem switchParts_read {c c' : Cursor} {es : List Expr} {bs : List Body} (hc : c.On source)
    (h : (switchParts g).run c = some ((es, bs), c')) : PartsRead source c bs c' := by
  obtain ⟨subject, c₁, h₁, h⟩ := run_bind_eq_some.mp h
  obtain ⟨ts₁, hts₁⟩ := Parser.reads _ h₁
  have hc₁ := (condition_read hv hc h₁).on
  refine .prepend hv hc hts₁ ?_
  obtain ⟨b, c₂, h₂, h⟩ := run_bind_eq_some.mp h
  obtain ⟨hc₂, hle₂⟩ := hc₁.run hv h₂
  obtain ⟨ts₂, hts₂⟩ := Parser.reads _ h₂
  split at h
  · obtain ⟨cases, c₃, h₃, h⟩ := run_bind_eq_some.mp h
    obtain ⟨u, c₄, h₄, h⟩ := run_bind_eq_some.mp h
    obtain ⟨u', c₅, h₅, h⟩ := run_bind_eq_some.mp h
    obtain ⟨cases', c₆, h₆, h⟩ := run_bind_eq_some.mp h
    obtain ⟨rfl, rfl⟩ := run_pure_eq_some.mp h₆
    obtain ⟨hparts, rfl⟩ := run_pure_eq_some.mp h
    cases hparts
    obtain ⟨hbodies, hc₃⟩ := switchCases_read hv hg hc₂ h₃
    obtain ⟨w, hw, -⟩ := run_expectWord_eq_some h₄
    obtain ⟨ts₃, hts₃⟩ := Parser.reads _ h₃
    have hc₄ := hc₃.reads hw
    refine ⟨hbodies.mono hle₂ ?_, .prepend (hts₂.trans (hts₃.trans hw)) (hc₄.shuts_terminator hv h₅).closes⟩
    rw [hw.nextStop, ← show c₄.last = w.stop from hw.last]
    exact (hc₄.run hv h₅).2
  · obtain ⟨u, c₃, h₃, h⟩ := run_bind_eq_some.mp h
    obtain ⟨cases, c₄, h₄, h⟩ := run_bind_eq_some.mp h
    obtain ⟨u', c₅, h₅, h⟩ := run_bind_eq_some.mp h
    obtain ⟨cases', c₆, h₆, h⟩ := run_bind_eq_some.mp h
    obtain ⟨rfl, rfl⟩ := run_pure_eq_some.mp h₆
    obtain ⟨hparts, rfl⟩ := run_pure_eq_some.mp h
    cases hparts
    obtain ⟨hc₃, hle₃⟩ := hc₂.run hv h₃
    obtain ⟨hbodies, hc₄⟩ := switchCases_read hv hg hc₃ h₄
    obtain ⟨t, ht, hk⟩ := run_expect_eq_some h₅
    obtain ⟨ts₃, hts₃⟩ := Parser.reads _ h₃
    obtain ⟨ts₄, hts₄⟩ := Parser.reads _ h₄
    refine ⟨hbodies.mono (hle₂.trans hle₃) ?_, .prepend (hts₂.trans (hts₃.trans hts₄)) (hc₄.shuts_sign hv ht hk).closes⟩
    rw [ht.nextStop, ht.last]
    rfl

/-- A handler of a `try`. -/
theorem catchClause_read {c c' : Cursor} {o : Option Body} (hc : c.On source)
    (h : (catchClause g).run c = some (o, c')) :
    (o = none ∧ c = c') ∨ ∃ b, o = some b ∧ b.Laid source c.last c'.last ∧ Closes source c c' := by
  rcases run_ifWord_eq_some h with hnone | ⟨t, c₁, ht, -, h⟩
  · exact Or.inl hnone
  · obtain ⟨u, c₂, h₂, h⟩ := run_bind_eq_some.mp h
    obtain ⟨u', c₃, h₃, h⟩ := run_bind_eq_some.mp h
    obtain ⟨b, c₄, h₄, h⟩ := run_bind_eq_some.mp h
    obtain ⟨u'', c₅, h₅, h⟩ := run_bind_eq_some.mp h
    obtain ⟨body, c₆, h₆, h⟩ := run_bind_eq_some.mp h
    obtain ⟨rfl, rfl⟩ := run_pure_eq_some.mp h
    obtain ⟨ts₂, hts₂⟩ := Parser.reads _ h₂
    obtain ⟨ts₃, hts₃⟩ := Parser.reads _ h₃
    obtain ⟨ts₄, hts₄⟩ := Parser.reads _ h₄
    obtain ⟨ts₅, hts₅⟩ := Parser.reads _ h₅
    have hts := ht.trans (hts₂.trans (hts₃.trans (hts₄.trans hts₅)))
    obtain ⟨hb, hclose⟩ := blockBody_read hv hg (hc.reads hts) h₆
    exact Or.inr ⟨_, rfl, hb.mono (hc.le hv hts) le_rfl, .prepend hts hclose⟩

theorem tryParts_read {c c' : Cursor} {es : List Expr} {bs : List Body} (hc : c.On source)
    (h : (tryParts g).run c = some ((es, bs), c')) : PartsRead source c bs c' := by
  obtain ⟨body, c₁, h₁, h⟩ := run_bind_eq_some.mp h
  obtain ⟨handlers, c₂, h₂, h⟩ := run_bind_eq_some.mp h
  obtain ⟨b, c₃, h₃, h⟩ := run_bind_eq_some.mp h
  obtain ⟨hc₁, -⟩ := hc.run hv h₁
  obtain ⟨ts₁, hts₁⟩ := Parser.reads _ h₁
  obtain ⟨ts₂, hts₂⟩ := Parser.reads _ h₂
  obtain ⟨hbody, hclose⟩ := blockBody_read hv hg hc h₁
  obtain ⟨hchain, hc₂⟩ := run_many_chain
    (P := fun c b c' => Body.Laid source c.last c'.last b ∧ Closes source c c')
    (fun hc hr => catchClause_read hv hg hc hr) hc₁ h₂
  have hhandlers := bodiesLaid_of_chain id Cursor.last (fun _ _ _ h => h.1) hchain
  rw [List.map_id] at hhandlers
  have hbodies : bodiesLaid source c.last c₂.last (.block body :: handlers) := by
    rw [bodiesLaid]
    exact ⟨_, hbody, hhandlers⟩
  have hcloses : Closes source c c₂ := by
    rcases closes_of_chain (fun h => h.2) hchain with rfl | h
    · exact hclose
    · exact .prepend hts₁ h
  rcases run_acceptKind_eq_some h₃ with ⟨rfl, t, ht, -⟩ | ⟨rfl, rfl, -⟩
  · obtain ⟨last, c₄, h₄, h⟩ := run_bind_eq_some.mp h
    obtain ⟨final, c₅, h₅, h⟩ := run_bind_eq_some.mp h
    obtain ⟨rfl, rfl⟩ := run_pure_eq_some.mp h₅
    obtain ⟨hparts, rfl⟩ := run_pure_eq_some.mp h
    cases hparts
    obtain ⟨hlast, hclose'⟩ := blockBody_read hv hg (hc₂.reads ht) h₄
    exact ⟨hbodies.append (.single (hlast.mono (hc₂.le hv ht) le_rfl)),
      .prepend (hts₁.trans (hts₂.trans ht)) hclose'⟩
  · obtain ⟨final, c₄, h₄, h⟩ := run_bind_eq_some.mp h
    obtain ⟨rfl, rfl⟩ := run_pure_eq_some.mp h₄
    obtain ⟨hparts, rfl⟩ := run_pure_eq_some.mp h
    cases hparts
    rw [List.append_nil]
    exact ⟨hbodies, hcloses⟩

/-- **The bodies of every control structure lie well**, one after the other. -/
theorem controlParts_read {c c' : Cursor} {w : String} {p : Parser (List Expr × List Body)} {es : List Expr}
    {bs : List Body} (hp : controlParts g w = some p) (hc : c.InCode source) (h : p.run c = some ((es, bs), c')) :
    PartsRead source c bs c' := by
  unfold controlParts at hp
  split at hp <;> cases hp
  · exact ifParts_read hv hg hc.on h
  · exact whileParts_read hv hg hc.on h
  · exact doParts_read hv hg hc h
  · exact forParts_read hv hg hc.on h
  · exact foreachParts_read hv hg hc.on h
  · exact switchParts_read hv hg hc.on h
  · exact tryParts_read hv hg hc.on h

end Rules

end Grammar

end Polyfill.Source
