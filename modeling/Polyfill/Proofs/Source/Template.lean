import Polyfill.Proofs.Source.Lexeme

/-! # Where strings with embedded expressions end

The embedded expressions of a string lie between its opening and its closing mark, one after the other; they start
between characters, and end next to a byte of no identifier. The closing mark of a document repeats the name of its
label.

* `EmbedsIn`: the embedded expressions lie well.
* `TemplateFits`: the string lies well; `quotedTemplate?_fits`, `document?_fits`: so it does. -/

namespace Polyfill.Source

/-! ### Embedded expressions -/

theorem edge_bracedLength : ∀ (t : Text) (depth : ℕ), Edge t (bracedLength depth t)
  | [], _ => Or.inl (by simp [bracedLength])
  | b :: t, depth => by
    unfold bracedLength
    split
    · next hb =>
      cases depth with
      | zero => exact .behind (by rw [beq_iff_eq.mp hb]; decide)
      | succ depth => exact (edge_bracedLength t depth).cons
    · split
      · exact (edge_bracedLength t _).cons
      · exact (edge_bracedLength t _).cons

theorem edge_bracketedLength : ∀ (t : Text) (depth : ℕ), Edge t (bracketedLength depth t)
  | [], _ => Or.inl (by simp [bracketedLength])
  | b :: t, depth => by
    unfold bracketedLength
    split
    · next hb => exact .head (not_isIdentByte_of_isCodeBlank b hb)
    · split
      · next hb =>
        cases depth with
        | zero => exact .behind (by rw [beq_iff_eq.mp hb]; decide)
        | succ depth => exact (edge_bracketedLength t depth).cons
      · split
        · exact (edge_bracketedLength t _).cons
        · exact (edge_bracketedLength t _).cons

theorem le_of_startsWith {t : Text} {s : String} (h : t.startsWith s = true) :
    (Text.ofString s).length ≤ t.length := (startsWith_iff.mp h).length_le

theorem edge_variableLength {t : Text} (h : t.startsWith "$" = true) : Edge t (variableLength t) := by
  have h₁ : 1 ≤ t.length := le_of_startsWith h
  have hp : Edge t (1 + identLength (t.drop 1)) := (edge_identLength _).drop h₁
  have hle := hp.le
  rw [variableLength]
  split
  · next hb =>
    have := le_of_startsWith hb
    rw [List.length_drop, show (Text.ofString "[").length = 1 by decide] at this
    rw [List.drop_drop]
    exact (edge_bracketedLength _ 0).drop (by omega)
  · split
    · next hb =>
      rw [Bool.and_eq_true] at hb
      have := le_of_startsWith hb.1
      rw [List.length_drop, show (Text.ofString "->").length = 2 by decide] at this
      rw [List.drop_drop]
      exact (edge_identLength _).drop (by omega)
    · split
      · next hb =>
        rw [Bool.and_eq_true] at hb
        have := le_of_startsWith hb.1
        rw [List.length_drop, show (Text.ofString "?->").length = 3 by decide] at this
        rw [List.drop_drop]
        exact (edge_identLength _).drop (by omega)
      · exact hp

/-- An embedded expression starts with an ASCII byte and ends next to a byte of no identifier. -/
theorem embedLength_spec {t : Text} (h : embedLength t ≠ 0) : Seam t 0 ∧ Edge t (embedLength t) := by
  unfold embedLength at h ⊢
  split_ifs at h ⊢ with h₁ h₂
  · rw [Bool.and_eq_true] at h₁
    obtain ⟨r, hr⟩ := startsWith_iff.mp h₁.1
    refine ⟨?_, edge_variableLength h₁.1⟩
    rw [← hr]
    exact .head (by decide)
  · rw [Bool.or_eq_true] at h₂
    have hd : Ascii t 2 := by
      rcases h₂ with h₂ | h₂
      · exact ascii_startsWith (by decide) h₂
      · exact ascii_startsWith (by decide) h₂
    refine ⟨?_, (edge_bracedLength _ 0).drop hd.le⟩
    have hpos : 0 < t.length := hd.le.trans_lt' (by decide)
    refine Or.inr (Or.inl ⟨t[0], List.getElem?_eq_getElem hpos, hd.lt _ ?_⟩)
    rw [List.mem_take_iff_getElem]
    exact ⟨0, by omega, rfl⟩
  · exact absurd rfl h

/-- The embedded expressions lie between the offsets `lo` and `hi`, one after the other. -/
def EmbedsIn (t : Text) (lo hi : ℕ) : List Embed → Prop
  | [] => lo ≤ hi
  | e :: es => lo ≤ e.start ∧ Seam t e.start ∧ Edge t (e.start + e.length) ∧
      EmbedsIn t (e.start + e.length) hi es

theorem EmbedsIn.le {t : Text} {hi : ℕ} : ∀ {lo : ℕ} {es : List Embed}, EmbedsIn t lo hi es → lo ≤ hi
  | _, [], h => h
  | _, _ :: _, h => h.1.trans (Nat.le_of_add_right_le (EmbedsIn.le h.2.2.2))

theorem EmbedsIn.mono {t : Text} {lo lo' hi : ℕ} (h : lo' ≤ lo) : ∀ {es : List Embed}, EmbedsIn t lo hi es →
    EmbedsIn t lo' hi es
  | [], hes => h.trans hes
  | _ :: _, hes => ⟨h.trans hes.1, hes.2⟩

theorem drop_eq_cons {t : Text} {pos : ℕ} {b : UInt8} {rest : Text} (h : b :: rest = t.drop pos) :
    pos < t.length ∧ t[pos]? = some b ∧ rest = t.drop (pos + 1) := by
  have hlt : pos < t.length := by
    by_contra hge
    rw [List.drop_eq_nil_of_le (by omega)] at h
    cases h
  rw [List.drop_eq_getElem_cons hlt, List.cons.injEq] at h
  exact ⟨hlt, by rw [List.getElem?_eq_getElem hlt, h.1], h.2⟩

theorem EmbedsIn.cons_embed {t : Text} {pos hi n : ℕ} {es : List Embed} (hpos : pos ≤ t.length)
    (hn : embedLength (t.drop pos) = n + 1) (hes : EmbedsIn t (pos + 1 + n) hi es) :
    EmbedsIn t pos hi (⟨pos, n + 1⟩ :: es) := by
  obtain ⟨h₀, h₁⟩ := embedLength_spec (t := t.drop pos) (by omega)
  rw [hn] at h₁
  exact ⟨le_rfl, h₀.drop hpos, h₁.drop hpos, by rwa [show pos + (n + 1) = pos + 1 + n by omega]⟩

theorem embedsFrom_spec {quote : UInt8} {t : Text} : ∀ {rest : Text} {pos skip : ℕ} {escaped : Bool}
    {es : List Embed} {q : ℕ}, rest = t.drop pos → embedsFrom quote pos skip escaped rest = some (es, q) →
    EmbedsIn t (pos + skip) q es ∧ t[q]? = some quote
  | [], _, _, _, _, _, _, h => by simp [embedsFrom] at h
  | b :: rest, pos, skip + 1, escaped, es, q, hr, h => by
    rw [embedsFrom] at h
    have ih := embedsFrom_spec (drop_eq_cons hr).2.2 h
    rwa [show pos + 1 + skip = pos + (skip + 1) by omega] at ih
  | b :: rest, pos, 0, escaped, es, q, hr, h => by
    obtain ⟨hpos, hb, hrest⟩ := drop_eq_cons hr
    rw [embedsFrom] at h
    split at h
    · next hq =>
      cases h
      simp only [Bool.and_eq_true, beq_iff_eq] at hq
      exact ⟨le_rfl, by rw [hb, hq.1]⟩
    · split at h
      · have ih := embedsFrom_spec hrest h
        exact ⟨ih.1.mono (by omega), ih.2⟩
      · split at h
        · have ih := embedsFrom_spec hrest h
          exact ⟨ih.1.mono (by omega), ih.2⟩
        · next n hn =>
          obtain ⟨⟨es', q'⟩, h', he⟩ := Option.map_eq_some_iff.mp h
          cases he
          have ih := embedsFrom_spec hrest h'
          refine ⟨EmbedsIn.cons_embed hpos.le ?_ ih.1, ih.2⟩
          rw [Nat.add_zero, ← hr]
          split at hn
          · cases hn
          · exact hn

theorem documentFrom_spec {label : Label} {t : Text} : ∀ {rest : Text} {pos skip : ℕ}
    {fresh escaped : Bool} {es : List Embed} {q : ℕ}, rest = t.drop pos →
    documentFrom label pos skip fresh escaped rest = some (es, q) →
    EmbedsIn t (pos + skip) q es ∧ label.name <+: t.drop q
  | [], _, _, _, _, _, _, _, h => by simp [documentFrom] at h
  | b :: rest, pos, skip + 1, fresh, escaped, es, q, hr, h => by
    rw [documentFrom] at h
    have ih := documentFrom_spec (drop_eq_cons hr).2.2 h
    rwa [show pos + 1 + skip = pos + (skip + 1) by omega] at ih
  | b :: rest, pos, 0, fresh, escaped, es, q, hr, h => by
    obtain ⟨hpos, hb, hrest⟩ := drop_eq_cons hr
    have step : ∀ {fresh escaped : Bool}, documentFrom label (pos + 1) 0 fresh escaped rest = some (es, q) →
        EmbedsIn t (pos + 0) q es ∧ label.name <+: t.drop q := by
      intro fresh escaped h
      have ih := documentFrom_spec hrest h
      exact ⟨ih.1.mono (by omega), ih.2⟩
    rw [documentFrom] at h
    split at h
    · exact step h
    · split at h
      · exact step h
      · split at h
        · exact step h
        · split at h
          · next n hn =>
            obtain ⟨⟨es', q'⟩, h', he⟩ := Option.map_eq_some_iff.mp h
            cases he
            have ih := documentFrom_spec hrest h'
            refine ⟨EmbedsIn.cons_embed hpos.le ?_ ih.1, ih.2⟩
            rw [Nat.add_zero, ← hr]
            split at hn
            · exact hn
            · cases hn
          · split at h
            · next hm =>
              cases h
              rw [Bool.and_eq_true, startsWithMark, Bool.and_eq_true] at hm
              rw [Nat.add_zero, ← hr]
              exact ⟨le_rfl, List.isPrefixOf_iff_prefix.mp hm.2.1⟩
            · exact step h

/-! ### Whole strings -/

/-- The name stands between characters somewhere in the text. -/
def NameIn (t name : Text) : Prop :=
  name ≠ [] ∧ ∃ k, Seam t k ∧ Seam t (k + name.length) ∧ name <+: t.drop k

/-- The string with embedded expressions at the start of the text lies well. -/
structure TemplateFits (t : Text) (p : Template) : Prop where
  pos : 0 < p.opening
  opened : Seam t p.opening
  embeds : EmbedsIn t p.opening (p.opening + p.between) p.embeds
  le : p.opening + p.between + p.closing ≤ t.length
  /-- Its closing mark is a quote, or a name that stands somewhere else. -/
  closed : Seam t (p.opening + p.between) ∧ Seam t (p.opening + p.between + p.closing) ∨
    ∃ name, NameIn t name ∧ name.length = p.closing ∧ name <+: t.drop (p.opening + p.between)

theorem quotedTemplate?_fits {quote : UInt8} {opening : ℕ} {t : Text} {p : Template} (hq : quote < 0x80)
    (hpos : 0 < opening) (ho : Seam t opening) (h : quotedTemplate? quote opening t = some p) :
    TemplateFits t p := by
  obtain ⟨⟨es, q⟩, hr, rfl⟩ := Option.map_eq_some_iff.mp h
  obtain ⟨hes, hq'⟩ := embedsFrom_spec rfl hr
  rw [Nat.add_zero] at hes
  have hle := hes.le
  have hmid : opening + (q - opening) = q := by omega
  refine ⟨hpos, ho, by rw [hmid]; exact hes, ?_, Or.inl ⟨?_, ?_⟩⟩
  · rw [hmid]
    exact (List.getElem?_eq_some_iff.mp hq').1
  · rw [hmid]
    exact Or.inr (Or.inl ⟨quote, hq', hq⟩)
  · rw [hmid]
    exact Or.inr (Or.inr ⟨q, quote, rfl, hq', hq⟩)

/-- The label of a document, behind the opening sign and blanks. -/
theorem label?_spec {u : Text} {label : Label} {n : ℕ} (h : label? u = some (label, n)) :
    label.name ≠ [] ∧ ∃ q, (q = 0 ∨ Seam u q) ∧ Seam u (q + label.name.length) ∧ label.name <+: u.drop q := by
  unfold label? at h
  extract_lets quote name at h
  have hname : headIs isIdentStart name = true → name ≠ [] := by
    rintro hh he
    rw [he] at hh
    cases hh
  split at h
  · cases h
  · next hh =>
    simp only [Bool.not_eq_true', Bool.not_eq_false] at hh
    split at h
    · next hquote =>
      split at h
      · cases h
        obtain ⟨b, rest, rfl, hb⟩ := exists_of_headIs hquote
        have hb' : b < 0x80 := by
          simp only [Bool.or_eq_true, beq_iff_eq] at hb
          rcases hb with rfl | rfl <;> decide
        have hn : name = rest.takeWhile isIdentByte := by simp only [name, if_pos hquote]; rfl
        refine ⟨hname hh, 1, Or.inr (.behind hb'), ?_, ?_⟩
        · rw [hn, Nat.add_comm]
          exact (edge_identLength rest).seam.cons
        · rw [hn]
          exact List.takeWhile_prefix _
      · cases h
    · next hquote =>
      cases h
      have hn : name = u.takeWhile isIdentByte := by simp only [name, if_neg hquote]
      refine ⟨hname hh, 0, Or.inl rfl, ?_, ?_⟩
      · rw [hn, Nat.zero_add]
        exact (edge_identLength u).seam
      · rw [hn]
        exact List.takeWhile_prefix _

theorem ascii_newlineLength (t : Text) : Ascii t (newlineLength t) := by
  rw [newlineLength]
  split_ifs with h₁ h₂
  · exact ascii_startsWith (by decide) h₁
  · exact ascii_startsWith (by decide) h₂
  · exact .zero t

theorem document?_fits {start : ℕ} {t : Text} {p : Template} (hs : Ascii t (start + 3))
    (h : document? start t = some p) : TemplateFits t p := by
  unfold document? at h
  simp only [Option.bind_eq_bind, Option.bind_eq_some_iff, Prod.exists] at h
  obtain ⟨label, written, hlabel, h⟩ := h
  -- The blanks in front of the label.
  have hk : Ascii t (start + 3 + ((t.drop (start + 3)).takeWhile isCodeBlank).length) :=
    hs.add (ascii_takeWhile lt_of_isCodeBlank _)
  have hkpos : 0 < start + 3 + ((t.drop (start + 3)).takeWhile isCodeBlank).length := by omega
  generalize start + 3 + ((t.drop (start + 3)).takeWhile isCodeBlank).length = k at h hlabel hk hkpos
  split at h
  · cases h
  · next hnl =>
    simp only [Option.bind_eq_some_iff, Prod.exists, Option.pure_def, Option.some.injEq] at h
    obtain ⟨es, q, hes, rfl⟩ := h
    obtain ⟨hes, hmark⟩ := documentFrom_spec rfl hes
    rw [Nat.add_zero] at hes
    -- The line break behind the label ends the opening mark.
    have hopened : Seam t (k + written + newlineLength (t.drop (k + written))) := by
      have ha := ascii_newlineLength (t.drop (k + written))
      refine (ha.seam (Nat.pos_of_ne_zero hnl)).drop ?_
      have := ha.le
      rw [List.length_drop] at this
      omega
    have hopos : 0 < k + written + newlineLength (t.drop (k + written)) := by omega
    have hle := hes.le
    generalize k + written + newlineLength (t.drop (k + written)) = o at *
    have hmid : o + (q - o) = q := by omega
    obtain ⟨hne, m, hm, hm', hname⟩ := label?_spec hlabel
    refine ⟨hopos, hopened, by rw [hmid]; exact hes, ?_,
      Or.inr ⟨label.name, ⟨hne, k + m, ?_, ?_, ?_⟩, rfl, ?_⟩⟩
    · have h₁ := hmark.length_le
      have h₂ := List.length_pos_of_ne_nil hne
      rw [List.length_drop] at h₁
      show o + (q - o) + label.name.length ≤ t.length
      omega
    · rcases hm with rfl | hm
      · exact hk.seam hkpos
      · exact hm.drop hk.le
    · rw [Nat.add_assoc]
      exact hm'.drop hk.le
    · rwa [← List.drop_drop]
    · rwa [hmid]

end Polyfill.Source
