import Polyfill.Proofs.Source.Layout
import Polyfill.Proofs.Source.Lexing
import Polyfill.Source.Parse

/-! # What a rule of the grammar reads

A rule that succeeds has read a run of tokens from the front of what was left. Since the tokens stand in the
source, so does what has been read: it lies behind what was read before, and ends where its last token does.

* `Cursor.On`: the cursor goes through the tokens of a source.
* `Closes`: what has been read ends as a statement does.
* `Chain`: items that have been read one after the other. -/

namespace Polyfill.Source

open Text

/-! ### Runs -/

/-- The kind of the next token. -/
def Cursor.front (c : Cursor) : Option TokenKind := c.tokens.head?.map Token.kind

theorem Cursor.Reads.front {c c' : Cursor} {t : Token} {ts : List Token} (h : c.Reads (t :: ts) c') :
    c.front = some t.kind := by
  rw [Cursor.front, h.tokens]
  rfl

/-- The offset of the next token. -/
def Cursor.start (c : Cursor) : ℕ :=
  match c.tokens with
  | [] => c.last
  | t :: _ => t.start

theorem Cursor.Reads.start {c c' : Cursor} {t : Token} {ts : List Token} (h : c.Reads (t :: ts) c') :
    c.start = t.start := by
  rw [Cursor.start, h.tokens]
  rfl

namespace Parser

open Scan

variable {α β : Type} {c c' : Cursor}

theorem run_bind_eq_some {p : Parser α} {f : α → Parser β} {b : β} :
    (p >>= f).run c = some (b, c') ↔ ∃ a c₁, p.run c = some (a, c₁) ∧ (f a).run c₁ = some (b, c') := by
  simp only [bind, Parser.bind]
  cases p.run c with
  | none => simp
  | some r => simp [Prod.ext_iff]

theorem run_pure_eq_some {a b : α} : (pure a : Parser α).run c = some (b, c') ↔ a = b ∧ c = c' := by
  change some (a, c) = some (b, c') ↔ _
  rw [Option.some.injEq, Prod.mk.injEq]

theorem run_refuse_eq_some {a : α} : (refuse : Parser α).run c = some (a, c') ↔ False :=
  iff_of_false nofun id

theorem run_look_eq_some {f : Cursor → α} {a : α} : (look f).run c = some (a, c') ↔ f c = a ∧ c = c' := by
  change some (f c, c) = some (a, c') ↔ _
  rw [Option.some.injEq, Prod.mk.injEq]

theorem run_ensure_eq_some {condition : Bool} {u : Unit} :
    (ensure condition : Parser Unit).run c = some (u, c') ↔ condition = true ∧ c = c' := by
  cases condition with
  | true => simp [ensure, run_pure_eq_some]
  | false => simp [ensure, run_refuse_eq_some]

theorem run_next_eq_some {t : Token} : next.run c = some (t, c') ↔ c.Reads [t] c' := by
  obtain ⟨ts, last⟩ := c
  obtain ⟨ts', last'⟩ := c'
  constructor
  · intro h
    cases ts with
    | nil => cases h
    | cons x xs =>
      cases h
      exact ⟨rfl, rfl⟩
  · rintro ⟨h₁, h₂⟩
    simp only at h₁ h₂
    rw [h₁, h₂]
    rfl

theorem run_kindAt_eq_some {n : ℕ} {k : Option TokenKind} :
    (kindAt n).run c = some (k, c') ↔ c.tokens[n]?.map Token.kind = k ∧ c = c' := run_look_eq_some

theorem run_kind_eq_some {k : Option TokenKind} : kind.run c = some (k, c') ↔ c.front = k ∧ c = c' := by
  rw [kind, run_kindAt_eq_some, Cursor.front, List.head?_eq_getElem?]

theorem run_at?_eq_some {k : TokenKind} {b : Bool} :
    (at? k).run c = some (b, c') ↔ (c.front == some k) = b ∧ c = c' := by
  rw [at?, run_bind_eq_some]
  constructor
  · rintro ⟨k', c₁, h₁, h₂⟩
    obtain ⟨rfl, rfl⟩ := run_kind_eq_some.mp h₁
    exact run_pure_eq_some.mp h₂
  · rintro ⟨rfl, rfl⟩
    exact ⟨c.front, c, run_kind_eq_some.mpr ⟨rfl, rfl⟩, run_pure_eq_some.mpr ⟨rfl, rfl⟩⟩

theorem run_take_eq_some {k : TokenKind} {t : Token} :
    (take k).run c = some (t, c') ↔ c.Reads [t] c' ∧ t.kind = k := by
  rw [take, run_bind_eq_some]
  constructor
  · rintro ⟨t', c₁, h₁, h⟩
    obtain ⟨_, c₂, h₂, h₃⟩ := run_bind_eq_some.mp h
    obtain ⟨hk, rfl⟩ := run_ensure_eq_some.mp h₂
    obtain ⟨rfl, rfl⟩ := run_pure_eq_some.mp h₃
    exact ⟨run_next_eq_some.mp h₁, beq_iff_eq.mp hk⟩
  · rintro ⟨h, hk⟩
    refine ⟨t, c', run_next_eq_some.mpr h, run_bind_eq_some.mpr ⟨(), c', ?_, run_pure_eq_some.mpr ⟨rfl, rfl⟩⟩⟩
    exact run_ensure_eq_some.mpr ⟨beq_iff_eq.mpr hk, rfl⟩

theorem run_acceptKind_eq_some {k : TokenKind} {b : Bool} (h : (acceptKind k).run c = some (b, c')) :
    (b = true ∧ ∃ t, c.Reads [t] c' ∧ t.kind = k) ∨ (b = false ∧ c = c' ∧ c.front ≠ some k) := by
  obtain ⟨b', c₁, h₁, h⟩ := run_bind_eq_some.mp h
  obtain ⟨rfl, rfl⟩ := run_at?_eq_some.mp h₁
  split at h
  · next hk =>
    obtain ⟨t, c₂, h₂, h₃⟩ := run_bind_eq_some.mp h
    obtain ⟨rfl, rfl⟩ := run_pure_eq_some.mp h₃
    have ht := run_next_eq_some.mp h₂
    rw [ht.front, beq_iff_eq, Option.some.injEq] at hk
    exact Or.inl ⟨rfl, t, ht, hk⟩
  · next hk =>
    obtain ⟨rfl, rfl⟩ := run_pure_eq_some.mp h
    exact Or.inr ⟨rfl, rfl, fun h => hk (beq_iff_eq.mpr h)⟩

theorem run_spanFrom_eq_some {start : ℕ} {s : Span} (h : (spanFrom start).run c = some (s, c')) :
    s = ⟨start, c.last⟩ ∧ c = c' := by
  obtain ⟨n, c₁, h₁, h⟩ := run_bind_eq_some.mp h
  obtain ⟨rfl, rfl⟩ := run_look_eq_some.mp h₁
  obtain ⟨rfl, rfl⟩ := run_pure_eq_some.mp h
  exact ⟨rfl, rfl⟩

theorem run_here_eq_some {n : ℕ} (h : here.run c = some (n, c')) : n = c.start ∧ c = c' := by
  obtain ⟨rfl, rfl⟩ := run_look_eq_some.mp h
  exact ⟨rfl, rfl⟩

theorem run_expect_eq_some {s : String} {u : Unit} (h : (expect s).run c = some (u, c')) :
    ∃ t, c.Reads [t] c' ∧ t.kind = .sign s := by
  obtain ⟨t, c₁, h₁, h₂⟩ := run_bind_eq_some.mp h
  obtain ⟨-, rfl⟩ := run_pure_eq_some.mp h₂
  exact ⟨t, run_take_eq_some.mp h₁⟩

theorem run_expectWord_eq_some {w : String} {u : Unit} (h : (expectWord w).run c = some (u, c')) :
    ∃ t, c.Reads [t] c' ∧ t.kind = .word w := by
  obtain ⟨t, c₁, h₁, h₂⟩ := run_bind_eq_some.mp h
  obtain ⟨-, rfl⟩ := run_pure_eq_some.mp h₂
  exact ⟨t, run_take_eq_some.mp h₁⟩

theorem run_acceptTerminator_eq_some {b : Bool} (h : acceptTerminator.run c = some (b, c')) :
    (b = true ∧ ∃ ts t, c.Reads (ts ++ [t]) c' ∧
      (t.kind = .sign ";" ∨ t.kind = .closeTag ∨ t.kind = .openTag)) ∨ (b = false ∧ c = c') := by
  obtain ⟨b₁, c₁, h₁, h⟩ := run_bind_eq_some.mp h
  rcases run_acceptKind_eq_some h₁ with ⟨rfl, t, ht, hk⟩ | ⟨rfl, rfl, -⟩
  · obtain ⟨rfl, rfl⟩ := run_pure_eq_some.mp h
    exact Or.inl ⟨rfl, [], t, ht, Or.inl hk⟩
  · obtain ⟨b₂, c₂, h₂, h⟩ := run_bind_eq_some.mp h
    rcases run_acceptKind_eq_some h₂ with ⟨rfl, t, ht, hk⟩ | ⟨rfl, rfl, -⟩
    · obtain ⟨b₃, c₃, h₃, h⟩ := run_bind_eq_some.mp h
      obtain ⟨rfl, rfl⟩ := run_pure_eq_some.mp h
      rcases run_acceptKind_eq_some h₃ with ⟨-, t', ht', hk'⟩ | ⟨-, rfl, -⟩
      · exact Or.inl ⟨rfl, [t], t', ht.trans ht', Or.inr (Or.inr hk')⟩
      · exact Or.inl ⟨rfl, [], t, ht, Or.inr (Or.inl hk)⟩
    · obtain ⟨rfl, rfl⟩ := run_pure_eq_some.mp h
      exact Or.inr ⟨rfl, rfl⟩

end Parser

/-! ### Tokens and what has been read -/

/-- Tokens of the kind stand in code and start with ink. -/
def TokenKind.isVisible : TokenKind → Bool
  | .inlineText | .templateEnd | .embedStart | .embedEnd => false
  | _ => true

namespace Token.Sound

variable {source : Text} {t : Token}

theorem byte (h : t.Sound source) {i : ℕ} {b : UInt8} (hi : t.text[i]? = some b) : source[t.start + i]? = some b := by
  rw [h.toSegment.getElem? (List.getElem?_eq_some_iff.mp hi).1, hi]

theorem solid (h : t.Sound source) (hne : t.text ≠ []) (hdark : ∀ b ∈ t.text, b < 0x80 ∧ isCodeBlank b = false) :
    Solid source ⟨t.start, t.stop⟩ := by
  have hpos := List.length_pos_of_ne_nil hne
  have dark : ∀ i < t.text.length, Dark source (t.start + i) := by
    intro i hi
    have hb := hdark _ (List.getElem_mem hi)
    exact ⟨_, h.byte (List.getElem?_eq_getElem hi), hb.2, hb.1⟩
  refine ⟨⟨Nat.lt_add_of_pos_right hpos, h.le, h.opens, h.closes⟩, (dark 0 hpos).ink, ?_⟩
  have := dark (t.text.length - 1) (by omega)
  rwa [← Nat.add_sub_assoc hpos] at this

theorem solid_of_sign (h : t.Sound source) {s : String} (hk : t.kind = .sign s) : Solid source ⟨t.start, t.stop⟩ := by
  have hs := h.spelled
  rw [hk] at hs
  obtain ⟨hm, ht⟩ := hs
  obtain ⟨hne, hb, -⟩ := signs_spec s hm
  exact h.solid (ht ▸ hne) (ht ▸ hb)

/-- A sign and an identifier have no bytes in common. -/
theorem identAt_of_sign (h : t.Sound source) {s : String} (hk : t.kind = .sign s) :
    source.identAt t.start = false ∧ source.identBefore t.stop = false := by
  have hs := h.spelled
  rw [hk] at hs
  obtain ⟨hm, ht⟩ := hs
  have hpos := List.length_pos_of_ne_nil (signs_spec s hm).1
  rw [← ht] at hpos
  have hident : ∀ i < t.text.length, source.identAt (t.start + i) = false := by
    intro i hi
    rw [Bool.eq_false_iff, ne_eq, identAt_iff, h.byte (List.getElem?_eq_getElem hi)]
    rintro ⟨b, hb, hb'⟩
    obtain rfl := Option.some.inj hb
    rw [not_ident_of_sign hm (ht ▸ List.getElem_mem hi)] at hb'
    cases hb'
  obtain ⟨n, hn⟩ : ∃ n, t.text.length = n + 1 := ⟨t.text.length - 1, by omega⟩
  have hle := h.le
  refine ⟨hident 0 hpos, ?_⟩
  rw [Token.stop, hn, ← Nat.add_assoc, identBefore_succ (by omega)]
  exact hident n (by omega)

theorem solid_of_tag (h : t.Sound source) (hk : t.kind = .openTag ∨ t.kind = .echoTag ∨ t.kind = .closeTag) :
    Solid source ⟨t.start, t.stop⟩ := by
  have hs := h.spelled
  rcases hk with hk | hk | hk <;> rw [hk] at hs
  · exact h.solid hs.1 hs.2.1
  · exact h.solid hs.1 hs.2.1
  · have hs : t.text = _ := hs
    exact h.solid (hs ▸ by decide) (hs ▸ forall_of_all_isDark rfl)

theorem marked (h : t.Sound source) {b : UInt8} {rest : Text} (ht : t.text = b :: rest) (hb : b < 0x80)
    (hc : isCodeBlank b = false) (hsemi : b ≠ 0x3B) {s : Span} (hs : s.start ≤ t.start) (hs' : t.stop ≤ s.stop) :
    Marked source s := by
  have hstop : t.start < t.stop := by
    rw [Token.stop, ht, List.length_cons]
    omega
  have hbyte : source[t.start + 0]? = some b := h.byte (by rw [ht]; rfl)
  exact ⟨t.start, b, hs, by omega, hbyte, hc, hb, hsemi⟩

theorem marked_of_sign (h : t.Sound source) {s : String} (hk : t.kind = .sign s) (hsemi : s ≠ ";") {p : Span}
    (hp : p.start ≤ t.start) (hp' : t.stop ≤ p.stop) : Marked source p := by
  have hs := h.spelled
  rw [hk] at hs
  obtain ⟨hm, ht⟩ := hs
  obtain ⟨hne, hb, hhead⟩ := signs_spec s hm
  obtain ⟨b, rest, hrest⟩ := List.exists_cons_of_ne_nil hne
  rw [hrest] at ht hb hhead
  have hb := hb b (by simp)
  exact h.marked ht hb.1 hb.2 (fun he => hhead hsemi (by simp [he])) hp hp'

theorem marked_of_tag (h : t.Sound source) (hk : t.kind = .openTag ∨ t.kind = .echoTag) {p : Span}
    (hp : p.start ≤ t.start) (hp' : t.stop ≤ p.stop) : Marked source p := by
  have hs : t.text ≠ [] ∧ (∀ b ∈ t.text, b < 0x80 ∧ isCodeBlank b = false) ∧ t.text.head? ≠ some 0x3B := by
    have hs := h.spelled
    rcases hk with hk | hk <;> rw [hk] at hs <;> exact hs
  obtain ⟨hne, hb, hhead⟩ := hs
  obtain ⟨b, rest, hrest⟩ := List.exists_cons_of_ne_nil hne
  rw [hrest] at hb hhead
  have hb := hb b (by simp)
  exact h.marked hrest hb.1 hb.2 (fun he => hhead (by simp [he])) hp hp'

/-- A token of code starts with ink. -/
theorem ink (h : t.Sound source) (hk : t.kind.isVisible = true) : Ink source t.start ∧ t.start < t.stop := by
  have hs := h.spelled
  have first : ∀ {b : UInt8} {rest : Text}, t.text = b :: rest → isCodeBlank b = false →
      Ink source t.start ∧ t.start < t.stop := by
    intro b rest ht hb
    refine ⟨⟨b, h.byte (i := 0) (by rw [ht]; rfl), hb⟩, ?_⟩
    rw [Token.stop, ht, List.length_cons]
    omega
  have cons : t.text ≠ [] → (∀ b ∈ t.text, isCodeBlank b = false) → Ink source t.start ∧ t.start < t.stop := by
    intro hne hb
    obtain ⟨b, rest, hrest⟩ := List.exists_cons_of_ne_nil hne
    exact first hrest (hb b (by simp [hrest]))
  cases hkind : t.kind with
  | inlineText | templateEnd | embedStart | embedEnd => simp [hkind, TokenKind.isVisible] at hk
  | openTag | echoTag =>
    rw [hkind] at hs
    exact cons hs.1 fun b hb => (hs.2.1 b hb).2
  | closeTag =>
    have hsolid := h.solid_of_tag (Or.inr (Or.inr hkind))
    exact ⟨hsolid.first, hsolid.lt⟩
  | word w =>
    rw [hkind] at hs
    exact cons hs.1.ne_nil hs.2.1
  | qualified =>
    rw [hkind] at hs
    exact cons hs.1.ne_nil hs.2
  | sign s =>
    have hsolid := h.solid_of_sign hkind
    exact ⟨hsolid.first, hsolid.lt⟩
  | var | number | string | templateStart | cast | halt =>
    rw [hkind] at hs
    obtain ⟨b, rest, ht, hb⟩ := hs
    exact first ht hb

theorem spelled_name (h : t.Sound source) (hk : t.kind.IsName) :
    Stemmed t.text ∧ ∀ b ∈ t.text, isCodeBlank b = false := by
  have hs := h.spelled
  rcases hk with hk | ⟨w, hk⟩
  · rw [hk] at hs
    exact hs
  · rw [hk] at hs
    exact ⟨hs.1, hs.2.1⟩

theorem inked_of_name (h : t.Sound source) (hk : t.kind.IsName) : Inked source ⟨t.start, t.stop⟩ := by
  have hs := h.spelled_name hk
  have hpos := List.length_pos_of_ne_nil hs.1.ne_nil
  have ink : ∀ i < t.text.length, Ink source (t.start + i) := fun i hi =>
    ⟨_, h.byte (List.getElem?_eq_getElem hi), hs.2 _ (List.getElem_mem hi)⟩
  refine ⟨⟨Nat.lt_add_of_pos_right hpos, h.le, h.opens, h.closes⟩, ink 0 hpos, ?_⟩
  have := ink (t.text.length - 1) (by omega)
  rwa [← Nat.add_sub_assoc hpos] at this

/-- A name that starts behind a byte of an identifier ends behind one. -/
theorem whole (h : t.Sound source) (hk : t.kind.IsName) (hb : Border source t.start) :
    source.identBefore t.start = true → source.identBefore t.stop = true := by
  intro hbefore
  have hat : ∀ {i b}, t.text[i]? = some b → isIdentByte b = true → source.identAt (t.start + i) = true :=
    fun hi hident => identAt_iff.mpr ⟨_, h.byte hi, hident⟩
  obtain ⟨hstem, -⟩ := h.spelled_name hk
  have hpos := List.length_pos_of_ne_nil hstem.ne_nil
  have hle := h.le
  rcases hstem with hhead | ⟨b, hb', hident⟩
  · -- no name goes on there, so the name starts with a separator
    obtain ⟨b, rest, ht, hident⟩ := exists_of_headIs hhead
    have := hat (i := 0) (by rw [ht]; rfl) hident
    rw [Nat.add_zero, hb hbefore] at this
    cases this
  · rw [Option.mem_def, List.getLast?_eq_getElem?] at hb'
    rw [Token.stop, show t.start + t.text.length = t.start + (t.text.length - 1) + 1 by omega,
      identBefore_succ (by omega)]
    exact hat hb' hident

end Token.Sound

theorem Cursor.exists_reads {c : Cursor} {k : TokenKind} (h : c.front = some k) :
    ∃ t c', c.Reads [t] c' ∧ t.kind = k := by
  obtain ⟨t, ht, hk⟩ := Option.map_eq_some_iff.mp h
  obtain ⟨ts, hts⟩ := List.head?_eq_some_iff.mp ht
  exact ⟨t, ⟨ts, t.stop⟩, ⟨hts, rfl⟩, hk⟩

theorem Lexed.behind {source : Text} {hi : ℕ} {us : List Token} : ∀ {ts : List Token} {lo : ℕ},
    source.isBoundary lo = true → Lexed source lo hi (ts ++ us) →
    lo ≤ endOf lo ts ∧ source.isBoundary (endOf lo ts) = true ∧ Lexed source (endOf lo ts) hi us
  | [], lo, hb, h => ⟨le_rfl, hb, h⟩
  | t :: ts, lo, hb, h => by
    obtain ⟨hlo, ht, htiled⟩ := h.tiled
    have ih := behind ht.closes ⟨htiled, h.chain.tail⟩
    have : t.start ≤ t.stop := Nat.le_add_right _ _
    exact ⟨hlo.trans (this.trans ih.1), ih.2⟩

/-- The offset behind the next token. -/
def Cursor.nextStop (c : Cursor) : ℕ :=
  match c.tokens with
  | [] => c.last
  | t :: _ => t.stop

theorem Cursor.Reads.nextStop {c c' : Cursor} {t : Token} {ts : List Token} (h : c.Reads (t :: ts) c') :
    c.nextStop = t.stop := by
  rw [Cursor.nextStop, h.tokens]
  rfl

/-- The cursor goes through the tokens of the source. -/
def Cursor.On (source : Text) (c : Cursor) : Prop :=
  ∃ ts, tokens? source = some (ts ++ c.tokens) ∧ c.last = endOf 0 ts

theorem tokenAt_iff {source : Text} {ts : List Token} (h : tokens? source = some ts) {k : TokenKind} {s : Span} :
    TokenAt source k s ↔ ∃ t ∈ ts, t.kind = k ∧ s = ⟨t.start, t.stop⟩ := by
  simp only [TokenAt, SourceParser.tokens, h, Option.getD_some]

/-- There are no more tokens, or none in an embedded expression. -/
def Cursor.AtEnd (c : Cursor) : Prop := c.front = none ∨ c.front = some .embedEnd

/-- The cursor stands in code, behind a token of it. -/
structure Cursor.InCode (source : Text) (c : Cursor) : Prop where
  on : c.On source
  behind : CodeBefore source c.last
  front : c.front ≠ some .inlineText

/-- What has been read between the cursors ends with an ASCII byte that is no blank, or there is nothing
behind it. -/
structure Closes (source : Text) (c c' : Cursor) : Prop where
  reads : ∃ t ts, c.Reads (t :: ts) c'
  ends : Dark source (c'.last - 1) ∨ c'.AtEnd

theorem Closes.prepend {source : Text} {c c₁ c' : Cursor} {ts : List Token} (h : c.Reads ts c₁)
    (h' : Closes source c₁ c') : Closes source c c' := by
  obtain ⟨u, us, hu⟩ := h'.reads
  refine ⟨?_, h'.ends⟩
  cases ts with
  | nil => exact ⟨u, us, h.trans hu⟩
  | cons t ts => exact ⟨t, ts ++ u :: us, h.trans hu⟩

/-- What has been read between the cursors ends with an ASCII byte that is no blank. -/
structure Shuts (source : Text) (c c' : Cursor) : Prop where
  reads : ∃ t ts, c.Reads (t :: ts) c'
  dark : Dark source (c'.last - 1)

theorem Shuts.closes {source : Text} {c c' : Cursor} (h : Shuts source c c') : Closes source c c' :=
  ⟨h.reads, Or.inl h.dark⟩

theorem Shuts.prepend {source : Text} {c c₁ c' : Cursor} {ts : List Token} (h : c.Reads ts c₁)
    (h' : Shuts source c₁ c') : Shuts source c c' := ⟨(Closes.prepend h h'.closes).reads, h'.dark⟩

theorem Shuts.of_solid {source : Text} {c c' : Cursor} {t : Token} (h : c.Reads [t] c')
    (ht : Solid source ⟨t.start, t.stop⟩) : Shuts source c c' := by
  refine ⟨⟨t, [], h⟩, ?_⟩
  rw [h.last]
  exact ht.last

theorem exists_closeTag {source : Text} (hv : Encoded source) {ts : List Token} (hts : tokens? source = some ts)
    {s : Span} (hs : TokenAt source .inlineText s) (hcode : CodeBefore source s.start) :
    ∃ a ∈ ts, a.kind = .closeTag ∧ a.Sound source ∧ a.stop = s.start := by
  have hlexed := tokens?_lexed hv hts
  obtain ⟨t, ht, hk, rfl⟩ := (tokenAt_iff hts).mp hs
  obtain ⟨k, s, hs, hne, hlt⟩ := hcode
  obtain ⟨u, hu, rfl, rfl⟩ := (tokenAt_iff hts).mp hs
  rcases hlexed.closed ht hk with ⟨a, ha, hak, hstop⟩ | hno
  · exact ⟨a, ha, hak, (hlexed.tiled.mem ha).1, hstop⟩
  · exact absurd (hno u hu hlt) hne

theorem dark_before_text {source : Text} (hv : Encoded source) {s : Span} (hs : TokenAt source .inlineText s)
    (hcode : CodeBefore source s.start) : Dark source (s.start - 1) := by
  cases hts : tokens? source with
  | none => simp [TokenAt, SourceParser.tokens, hts] at hs
  | some ts =>
    obtain ⟨a, -, hk, ha, hstop⟩ := exists_closeTag hv hts hs hcode
    exact hstop ▸ (ha.solid_of_tag (Or.inr (Or.inr hk))).last

namespace Cursor.On

variable {source : Text} {c c' : Cursor} {t : Token} {ts : List Token}

theorem reads (hc : c.On source) (h : c.Reads ts c') : c'.On source := by
  obtain ⟨us, hus, hlast⟩ := hc
  refine ⟨us ++ ts, ?_, ?_⟩
  · rw [hus, h.tokens, List.append_assoc]
  · rw [h.last, hlast, endOf_append]

theorem tokenAt (hc : c.On source) (h : c.Reads (t :: ts) c') : TokenAt source t.kind ⟨t.start, t.stop⟩ := by
  obtain ⟨us, hus, -⟩ := hc
  exact (tokenAt_iff hus).mpr ⟨t, by simp [h.tokens], rfl, rfl⟩

variable (hv : Encoded source)
include hv

theorem lexed (hc : c.On source) : source.isBoundary c.last = true ∧ Lexed source c.last source.length c.tokens := by
  obtain ⟨us, hus, hlast⟩ := hc
  have h := Lexed.behind ((Cuts.zero hv).isBoundary (Nat.zero_le _)) (tokens?_lexed hv hus)
  rw [hlast]
  exact h.2

theorem le (hc : c.On source) (h : c.Reads ts c') : c.last ≤ c'.last := by
  have hl := hc.lexed hv
  rw [h.tokens] at hl
  rw [h.last]
  exact (Lexed.behind hl.1 hl.2).1

theorem le_length (hc : c.On source) : c.last ≤ source.length := (hc.lexed hv).2.tiled.le

theorem token (hc : c.On source) (h : c.Reads (t :: ts) c') :
    t.Sound source ∧ c.last ≤ t.start ∧ t.stop ≤ c'.last := by
  have hl := (hc.lexed hv).2
  have hr : (Cursor.mk (ts ++ c'.tokens) t.stop).Reads ts c' := ⟨rfl, by rw [h.last]; rfl⟩
  have hone : c.Reads [t] (Cursor.mk (ts ++ c'.tokens) t.stop) := ⟨by rw [h.tokens]; rfl, rfl⟩
  rw [h.tokens] at hl
  exact ⟨hl.tiled.2.1, hl.tiled.1, (hc.reads hone).le hv hr⟩

theorem le_start (hc : c.On source) : c.last ≤ c.start := by
  have hl := (hc.lexed hv).2.tiled
  rw [start]
  cases hts : c.tokens with
  | nil => exact le_rfl
  | cons t ts =>
    rw [hts] at hl
    exact hl.1

theorem start_mono (hc : c.On source) (h : c.Reads ts c') : c.start ≤ c'.start := by
  cases ts with
  | nil =>
    have htokens : c.tokens = c'.tokens := h.tokens
    have hlast : c'.last = c.last := h.last
    rw [start, start, htokens, hlast]
  | cons t ts =>
    have ht := (hc.token hv h).2.2
    have : t.start ≤ t.stop := Nat.le_add_right _ _
    rw [h.start]
    exact this.trans (ht.trans ((hc.reads h).le_start hv))

theorem le_nextStop (hc : c.On source) : c.last ≤ c.nextStop := by
  have hl := (hc.lexed hv).2.tiled
  rw [nextStop]
  cases hts : c.tokens with
  | nil => exact le_rfl
  | cons t ts =>
    rw [hts] at hl
    exact hl.1.trans (Nat.le_add_right _ _)

theorem sound_of_mem : ∀ {ts : List Token} {c : Cursor}, c.On source → c.Reads ts c' → t ∈ ts →
    t.Sound source ∧ c.start ≤ t.start ∧ t.stop ≤ c'.last
  | x :: ts, c, hc, h, ht => by
    obtain ⟨hx, -, hle⟩ := hc.token hv h
    rcases List.mem_cons.mp ht with rfl | hm
    · exact ⟨hx, h.start.le, hle⟩
    · have hr : (Cursor.mk (ts ++ c'.tokens) x.stop).Reads ts c' := ⟨rfl, by rw [h.last]; rfl⟩
      have hone : c.Reads [x] (Cursor.mk (ts ++ c'.tokens) x.stop) := ⟨by rw [h.tokens]; rfl, rfl⟩
      have ih := sound_of_mem (hc.reads hone) hr hm
      exact ⟨ih.1, (hc.start_mono hv hone).trans ih.2.1, ih.2.2⟩

theorem follows (hc : c.On source) (h : c.Reads [t] c') : ∀ u ∈ c'.tokens.head?, Follows source t u := by
  have hl := (hc.lexed hv).2
  rw [h.tokens] at hl
  exact (List.isChain_cons.mp hl.chain).1

theorem named {c₁ : Cursor} {k : Token} (hc : c.On source) (hk : c.Reads [k] c₁) (hkn : k.kind.IsName)
    (ht : c₁.Reads (t :: ts) c') (htn : t.kind.IsName) : Named source ⟨t.text, ⟨t.start, t.stop⟩⟩ := by
  have hs := ((hc.reads hk).token hv ht).1
  have hb := (hc.follows hv hk t (by rw [ht.tokens]; rfl)).parted hkn htn
  exact ⟨hs.inked_of_name htn, hs.toSegment.slice_eq, ⟨_, (hc.reads hk).tokenAt ht⟩, hb, hs.ends htn, hs.whole htn hb⟩

theorem front_behind_text (hc : c.On source) (h : c.Reads [t] c') (hk : t.kind = .inlineText) :
    c'.AtEnd ∨ c'.front = some .openTag ∨ c'.front = some .echoTag ∨ t.start = 0 ∧ c'.front = some .inlineText := by
  have hf := hc.follows hv h
  rw [AtEnd, front]
  cases hu : c'.tokens.head? with
  | none => exact Or.inl (Or.inl rfl)
  | some u =>
    rw [Option.map_some]
    rcases (hf u hu).behind hk with hk' | hk' | hk' | ⟨h₀, hk'⟩
    · exact Or.inr (Or.inl (congrArg some hk'))
    · exact Or.inr (Or.inr (Or.inl (congrArg some hk')))
    · exact Or.inl (Or.inr (congrArg some hk'))
    · exact Or.inr (Or.inr (Or.inr ⟨h₀, congrArg some hk'⟩))

theorem atEnd_of_halt (hc : c.On source) (h : c.Reads [t] c') (hk : t.kind = .halt) : c'.AtEnd := by
  rw [AtEnd, front]
  cases hu : c'.tokens.head? with
  | none => exact Or.inl rfl
  | some u => exact Or.inr (congrArg some ((hc.follows hv h u hu).halt hk))

theorem front_ne_text (hc : c.On source) (h : c.Reads [t] c')
    (hk : t.kind ≠ .closeTag ∧ t.kind ≠ .inlineText) : c'.front ≠ some .inlineText := by
  intro hfront
  obtain ⟨u, hu, hku⟩ := Option.map_eq_some_iff.mp hfront
  rcases (hc.follows hv h u hu).front hku with h' | h'
  · exact hk.1 h'.1
  · exact hk.2 h'

theorem codeBefore (hc : c.On source) (h : c.Reads (t :: ts) c') (hk : t.kind.isVisible = true) :
    CodeBefore source c'.last := by
  obtain ⟨hs, -, hle⟩ := hc.token hv h
  refine ⟨_, _, hc.tokenAt h, fun hk' => by simp [hk', TokenKind.isVisible] at hk, ?_⟩
  exact (hs.ink hk).2.trans_le hle

/-- Where a text outside the code starts, what has been read ends with a closing tag. -/
theorem tag_before_text (hc : c.On source) (h : c.Reads (t :: ts) c') (hk : t.kind.isVisible = true) {s : Span}
    (hs : TokenAt source .inlineText s) (heq : s.start = c'.last) :
    Text.ofString "?>" <:+ source.slice t.start c'.last := by
  obtain ⟨hsound, -, hle⟩ := hc.token hv h
  have hlt := (hsound.ink hk).2
  have hcode := hc.codeBefore hv h hk
  obtain ⟨us, hus, -⟩ := hc
  obtain ⟨a, ha, hak, hasound, hstop⟩ := exists_closeTag hv hus hs (heq ▸ hcode)
  have hmem : t ∈ us ++ c.tokens := by simp [h.tokens]
  have hstart : t.start ≤ a.start := by
    by_cases hat : a = t
    · rw [hat]
    · have : t.start ≤ t.stop := Nat.le_add_right _ _
      rcases rel_or_rel_of_pairwise (tokens?_lexed hv hus).tiled.ordered ha hmem hat with h' | h' <;> omega
  have htext : source.slice a.start a.stop = Text.ofString "?>" := by
    have hspelled := hasound.spelled
    rw [hak] at hspelled
    exact hasound.toSegment.slice_eq.trans hspelled
  have hale : a.start ≤ a.stop := Nat.le_add_right _ _
  rw [← heq, ← hstop, ← slice_append_slice source hstart hale, htext]
  exact List.suffix_append _ _

theorem inCode (hc : c.On source) (h : c.Reads [t] c') (hk : t.kind.isVisible = true)
    (hend : t.kind ≠ .closeTag) : c'.InCode source :=
  ⟨hc.reads h, hc.codeBefore hv h hk,
    hc.front_ne_text hv h ⟨hend, fun h => by simp [h, TokenKind.isVisible] at hk⟩⟩

theorem inCode_sign (hc : c.On source) (h : c.Reads [t] c') {s : String} (hk : t.kind = .sign s) :
    c'.InCode source :=
  hc.inCode hv h (by rw [hk]; rfl) (by simp [hk])

theorem inCode_word (hc : c.On source) (h : c.Reads [t] c') {w : String} (hk : t.kind = .word w) :
    c'.InCode source :=
  hc.inCode hv h (by rw [hk]; rfl) (by simp [hk])

theorem run {α : Type} {p : Parser α} {a : α} (hc : c.On source) (h : p.run c = some (a, c')) :
    c'.On source ∧ c.last ≤ c'.last := by
  obtain ⟨ts, hts⟩ := p.reads h
  exact ⟨hc.reads hts, hc.le hv hts⟩

theorem shuts_sign (hc : c.On source) (h : c.Reads [t] c') {s : String} (hk : t.kind = .sign s) :
    Shuts source c c' :=
  .of_solid h ((hc.token hv h).1.solid_of_sign hk)

theorem shuts_terminator (hc : c.On source) {u : Unit} (h : Parser.terminator.run c = some (u, c')) :
    Shuts source c c' := by
  obtain ⟨b, c₁, h₁, h₂⟩ := Parser.run_bind_eq_some.mp h
  obtain ⟨rfl, rfl⟩ := Parser.run_ensure_eq_some.mp h₂
  rcases Parser.run_acceptTerminator_eq_some h₁ with ⟨-, ts, t, ht, hk⟩ | ⟨hb, -⟩
  · have hone : (Cursor.mk (t :: c₁.tokens) (endOf c.last ts)).Reads [t] c₁ :=
      ⟨rfl, by rw [ht.last, endOf_append]⟩
    have hts : c.Reads ts (Cursor.mk (t :: c₁.tokens) (endOf c.last ts)) := ⟨by simp [ht.tokens], rfl⟩
    refine .prepend hts (.of_solid hone ?_)
    have hs := ((hc.reads hts).token hv hone).1
    rcases hk with hk | hk | hk
    · exact hs.solid_of_sign hk
    · exact hs.solid_of_tag (by simp [hk])
    · exact hs.solid_of_tag (by simp [hk])
  · cases hb

end Cursor.On

/-! ### Items in a row -/

/-- Items that have been read one after the other between two cursors. -/
def Chain {α : Type} (R : Cursor → α → Cursor → Prop) : Cursor → List α → Cursor → Prop
  | c, [], c' => c = c'
  | c, a :: as, c' => ∃ c₁, R c a c₁ ∧ Chain R c₁ as c'

theorem Chain.imp {α : Type} {R S : Cursor → α → Cursor → Prop} (hR : ∀ {c a c'}, R c a c' → S c a c') :
    ∀ {as : List α} {c c' : Cursor}, Chain R c as c' → Chain S c as c'
  | [], _, _, h => h
  | _ :: _, _, _, ⟨c₁, ha, h⟩ => ⟨c₁, hR ha, Chain.imp hR h⟩

theorem Chain.mono {α : Type} {R S : Cursor → α → Cursor → Prop} {source : Text}
    (hR : ∀ {c a c'}, c.On source → R c a c' → S c a c' ∧ c'.On source) :
    ∀ {as : List α} {c c' : Cursor}, c.On source → Chain R c as c' → Chain S c as c' ∧ c'.On source
  | [], c, c', hc, h => by
    have h' : c = c' := h
    exact ⟨h, h' ▸ hc⟩
  | a :: as, c, c', hc, ⟨c₁, ha, h⟩ => by
    obtain ⟨hs, hc₁⟩ := hR hc ha
    obtain ⟨ih, hc'⟩ := Chain.mono hR hc₁ h
    exact ⟨⟨c₁, hs, ih⟩, hc'⟩

namespace Parser

open Scan

variable {α : Type} {c c' : Cursor} {as : List α}

theorem run_collect_eq_some {step : Parser (Option α)} : ∀ {fuel : ℕ} {c c' : Cursor} {as : List α},
    (collect step fuel).run c = some (as, c') →
    ∃ c₁, Chain (fun c a c' => step.run c = some (some a, c')) c as c₁ ∧ step.run c₁ = some (none, c')
  | 0, _, _, _, h => (run_refuse_eq_some.mp h).elim
  | fuel + 1, c, c', as, h => by
    obtain ⟨o, c₁, h₁, h⟩ := run_bind_eq_some.mp h
    cases o with
    | none =>
      obtain ⟨rfl, rfl⟩ := run_pure_eq_some.mp h
      exact ⟨c, rfl, h₁⟩
    | some a =>
      obtain ⟨as', c₂, h₂, h⟩ := run_bind_eq_some.mp h
      obtain ⟨rfl, rfl⟩ := run_pure_eq_some.mp h
      obtain ⟨c₃, hchain, hend⟩ := run_collect_eq_some h₂
      exact ⟨c₃, ⟨c₁, h₁, hchain⟩, hend⟩

theorem run_many_eq_some {step : Parser (Option α)} (h : (many step).run c = some (as, c')) :
    ∃ c₁, Chain (fun c a c' => step.run c = some (some a, c')) c as c₁ ∧ step.run c₁ = some (none, c') := by
  obtain ⟨n, c₁, h₁, h⟩ := run_bind_eq_some.mp h
  obtain ⟨-, rfl⟩ := run_look_eq_some.mp h₁
  exact run_collect_eq_some h

theorem run_many_chain_end {source : Text} {step : Parser (Option α)} {P : Cursor → α → Cursor → Prop}
    {E : Cursor → Prop} (hstep : ∀ {c o c'}, c.On source → step.run c = some (o, c') →
      (o = none ∧ c = c' ∧ E c) ∨ ∃ a, o = some a ∧ P c a c')
    (hc : c.On source) (h : (many step).run c = some (as, c')) : Chain P c as c' ∧ c'.On source ∧ E c' := by
  obtain ⟨c₁, hchain, hend⟩ := run_many_eq_some h
  obtain ⟨hP, hc₁⟩ := hchain.mono (S := P) (fun {c a c'} hc hr => by
    obtain ⟨ts, hts⟩ := step.reads hr
    refine ⟨?_, hc.reads hts⟩
    rcases hstep hc hr with ⟨ho, -⟩ | ⟨a', ho, hP⟩
    · cases ho
    · cases ho
      exact hP) hc
  rcases hstep hc₁ hend with ⟨-, rfl, hE⟩ | ⟨a, ho, -⟩
  · exact ⟨hP, hc₁, hE⟩
  · cases ho

theorem run_many_chain {source : Text} {step : Parser (Option α)} {P : Cursor → α → Cursor → Prop}
    (hstep : ∀ {c o c'}, c.On source → step.run c = some (o, c') →
      (o = none ∧ c = c') ∨ ∃ a, o = some a ∧ P c a c')
    (hc : c.On source) (h : (many step).run c = some (as, c')) : Chain P c as c' ∧ c'.On source := by
  obtain ⟨hP, hc', -⟩ := run_many_chain_end (E := fun _ => True)
    (fun hc hr => (hstep hc hr).imp_left fun ⟨ho, he⟩ => ⟨ho, he, trivial⟩) hc h
  exact ⟨hP, hc'⟩

theorem run_ifWord_eq_some {w : String} {q : Parser (Option α)} {o : Option α}
    (h : (do if ← acceptWord w then q else return none : Parser (Option α)).run c = some (o, c')) :
    (o = none ∧ c = c') ∨ ∃ t c₁, c.Reads [t] c₁ ∧ t.kind = .word w ∧ q.run c₁ = some (o, c') := by
  obtain ⟨b, c₁, h₁, h⟩ := run_bind_eq_some.mp h
  rcases run_acceptKind_eq_some h₁ with ⟨rfl, t, ht, hk⟩ | ⟨rfl, rfl, -⟩
  · exact Or.inr ⟨t, c₁, ht, hk, h⟩
  · obtain ⟨rfl, rfl⟩ := run_pure_eq_some.mp h
    exact Or.inl ⟨rfl, rfl⟩

/-- One step towards a token that meets the condition. -/
theorem run_untilStep_eq_some {stop : TokenKind → Bool} {item : Parser α} {o : Option α}
    (h : (do
      match ← kind with
      | none => refuse
      | some k => if stop k then return none else return some (← item) : Parser (Option α)).run c =
        some (o, c')) :
    (o = none ∧ c = c' ∧ ∃ k, c.front = some k ∧ stop k = true) ∨
      ∃ a, o = some a ∧ item.run c = some (a, c') := by
  obtain ⟨k, c₁, h₁, h⟩ := run_bind_eq_some.mp h
  obtain ⟨hk, rfl⟩ := run_kind_eq_some.mp h₁
  split at h
  · exact (run_refuse_eq_some.mp h).elim
  · split at h
    · next hstop =>
      obtain ⟨rfl, rfl⟩ := run_pure_eq_some.mp h
      exact Or.inl ⟨rfl, rfl, _, hk, hstop⟩
    · obtain ⟨a, c₂, h₂, h⟩ := run_bind_eq_some.mp h
      obtain ⟨rfl, rfl⟩ := run_pure_eq_some.mp h
      exact Or.inr ⟨a, rfl, h₂⟩

theorem run_manyUntil_eq_some {stop : TokenKind → Bool} {item : Parser α}
    (h : (manyUntil stop item).run c = some (as, c')) :
    Chain (fun c a c' => item.run c = some (a, c')) c as c' ∧ ∃ k, c'.front = some k ∧ stop k = true := by
  obtain ⟨c₁, hchain, hend⟩ := run_many_eq_some h
  rcases run_untilStep_eq_some hend with ⟨-, rfl, hk⟩ | ⟨a, ha, -⟩
  · refine ⟨hchain.imp fun h => ?_, hk⟩
    rcases run_untilStep_eq_some h with ⟨ha, -⟩ | ⟨a, ha, h⟩
    · cases ha
    · cases ha
      exact h
  · cases ha

end Parser

end Polyfill.Source
