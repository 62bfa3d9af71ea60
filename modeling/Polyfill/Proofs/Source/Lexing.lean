import Mathlib.Data.List.Chain
import Polyfill.Proofs.Source.Template
import Polyfill.Proofs.Text.Blank

/-! # The tokens of a source file

The tokens of a valid file come in source order. Each is written in the source at its place, cuts no
character, and is spelled as its kind says; behind a text outside the code comes a tag. A name goes on neither
behind its end nor, if it stands behind another one, in front of its start.

* `Spelled`: how tokens of a kind are written.
* `Token.Sound`, `Tiled`: a token, and a list of tokens, stands in the source.
* `tokens?_lexed`: so do the tokens of a file. -/

namespace Polyfill.Source

open Text

/-! ### How tokens are written -/

/-- How a token of a kind is written. -/
def Spelled : TokenKind → Text → Prop
  | .inlineText, t => t ≠ []
  | .openTag, t | .echoTag, t =>
    t ≠ [] ∧ (∀ b ∈ t, b < 0x80 ∧ isCodeBlank b = false) ∧ t.head? ≠ some 0x3B
  | .closeTag, t => t = Text.ofString "?>"
  | .sign s, t => s ∈ signs ∧ t = Text.ofString s
  | .word w, t => Stemmed t ∧ (∀ b ∈ t, isCodeBlank b = false) ∧ spelling t.lower = w
  | .qualified, t => Stemmed t ∧ ∀ b ∈ t, isCodeBlank b = false
  | .templateEnd, _ | .embedStart, _ | .embedEnd, _ => True
  | .var, t | .number, t | .string, t | .templateStart, t | .cast, t | .halt, t =>
    ∃ b rest, t = b :: rest ∧ isCodeBlank b = false

/-- Tokens of the kind are words or qualified names. -/
@[simp]
def TokenKind.IsName (k : TokenKind) : Prop := k = .qualified ∨ ∃ w, k = .word w

theorem spelled_nameKind {t : Text} (hstem : Stemmed t) (hink : ∀ b ∈ t, isCodeBlank b = false) :
    Spelled (nameKind t) t ∧ nameKind t ≠ .inlineText ∧ nameKind t ≠ .halt := by
  rw [nameKind]
  split
  · exact ⟨⟨hstem, hink⟩, by simp⟩
  · exact ⟨⟨hstem, hink, rfl⟩, by simp⟩

theorem spelled_openingTag {t : Text} {k : TokenKind} {n : ℕ} (ht : Text.ofString "<?" <+: t)
    (hk : k = .openTag ∨ k = .echoTag) (hn : 0 < n) (ha : Ascii t n)
    (hink : ∀ b ∈ t.take n, isCodeBlank b = false) : Spelled k (t.take n) := by
  obtain ⟨r, rfl⟩ := ht
  obtain ⟨m, rfl⟩ : ∃ m, n = m + 1 := ⟨n - 1, by omega⟩
  have htag : Text.ofString "<?" = [0x3C, 0x3F] := by decide
  rw [htag] at ha hink ⊢
  have hdark : ∀ b ∈ ([0x3C, 0x3F] ++ r : Text).take (m + 1), b < 0x80 ∧ isCodeBlank b = false :=
    fun b hb => ⟨ha.lt b hb, hink b hb⟩
  rcases hk with rfl | rfl
  · exact ⟨by simp, hdark, by simp⟩
  · exact ⟨by simp, hdark, by simp⟩

/-! ### Pieces -/

/-- The piece at the start of the text lies well. -/
def PieceFits (t : Text) : Piece → Prop
  | .blank n => Edge t n
  | .token k n => 0 < n ∧ Seam t n ∧ Spelled k (t.take n) ∧ k ≠ .inlineText ∧ (k.IsName → Edge t n) ∧
      (k = .halt → n = t.length)
  | .close => Text.ofString "?>" <+: t
  | .template p => TemplateFits t p

theorem take_eq_cons {b : UInt8} {t : Text} {n : ℕ} (hn : 0 < n) :
    ∃ rest, (b :: t).take n = b :: rest := by
  obtain ⟨k, rfl⟩ : ∃ k, n = k + 1 := ⟨n - 1, by omega⟩
  exact ⟨t.take k, List.take_succ_cons⟩

section Piece

variable {b : UInt8} {t : Text} {p : Piece} (hb : isCodeBlank b = false)
include hb

theorem token_fits {k : TokenKind} {n : ℕ} (hk : k = .var ∨ k = .number ∨ k = .string ∨ k = .cast)
    (hn : 0 < n) (hs : Seam (b :: t) n) : PieceFits (b :: t) (.token k n) := by
  obtain ⟨rest, hrest⟩ := take_eq_cons (b := b) (t := t) hn
  refine ⟨hn, hs, ?_, ?_⟩
  · rcases hk with rfl | rfl | rfl | rfl <;> exact ⟨b, rest, hrest, hb⟩
  · rcases hk with rfl | rfl | rfl | rfl <;> simp

theorem quotedPiece?_fits {mark : ℕ} (hq : startsWithQuote ((b :: t).drop mark) = true)
    (h : quotedPiece? mark (b :: t) = some p) : PieceFits (b :: t) p := by
  obtain ⟨q, rest, hrest, hq'⟩ := exists_of_headIs hq
  have hlt : q < 0x80 := by
    simp only [Bool.or_eq_true, beq_iff_eq] at hq'
    rcases hq' with rfl | rfl <;> decide
  obtain ⟨hm, hbyte, -⟩ := drop_eq_cons hrest.symm
  have hquoted : ∀ {quote : UInt8} {n : ℕ}, quote < 0x80 →
      quotedLength? quote false ((b :: t).drop (mark + 1)) = some n →
      PieceFits (b :: t) (.token .string (mark + 1 + n)) := by
    intro quote n hquote hn
    obtain ⟨k, rfl, hk⟩ := quotedLength?_spec hn
    refine token_fits hb (by simp) (by omega) (NextTo.drop (by omega) ?_)
    exact Or.inr (Or.inr ⟨k, quote, rfl, hk, hquote⟩)
  simp only [quotedPiece?] at h
  split_ifs at h
  · obtain ⟨n, hn, rfl⟩ := Option.map_eq_some_iff.mp h
    exact hquoted (by decide) hn
  · obtain ⟨n, hn, rfl⟩ := Option.map_eq_some_iff.mp h
    exact hquoted (by decide) hn
  · obtain ⟨n, hn, rfl⟩ := Option.map_eq_some_iff.mp h
    exact quotedTemplate?_fits (by decide) (Nat.succ_pos _) (Or.inr (Or.inr ⟨mark, q, rfl, hbyte, hlt⟩)) hn

omit hb in
theorem documentPiece?_fits (h : documentPiece? t = some p) : PieceFits t p := by
  unfold documentPiece? at h
  split_ifs at h with h₁ h₂
  · obtain ⟨n, hn, rfl⟩ := Option.map_eq_some_iff.mp h
    exact document?_fits (ascii_startsWith (s := "<<<") (by decide) h₁) hn
  · obtain ⟨n, hn, rfl⟩ := Option.map_eq_some_iff.mp h
    rw [Bool.and_eq_true] at h₂
    obtain ⟨x, rest, rfl, hx⟩ := exists_of_headIs h₂.1
    refine document?_fits (.cons ?_ (ascii_startsWith (s := "<<<") (by decide) h₂.2)) hn
    simp only [Bool.or_eq_true, beq_iff_eq] at hx
    rcases hx with rfl | rfl <;> decide

theorem namePiece?_fits {embedded : Bool}
    (ht : (headIs isIdentStart (b :: t) || (Text.startsWith (b :: t) "\\" && headIs isIdentStart ((b :: t).drop 1))) =
      true)
    (h : namePiece? embedded (b :: t) = some p) : PieceFits (b :: t) p := by
  obtain ⟨hpos, hedge, hink⟩ := @wordLength_spec embedded (b :: t) ht
  have hs := spelled_nameKind (stemmed_wordLength ht) hink
  unfold namePiece? at h
  extract_lets n at h
  split at h
  · -- The statement that ends the code takes all the rest.
    split at h
    · cases h
      exact ⟨Nat.succ_pos _, Or.inl rfl, ⟨b, t, List.take_length, hb⟩, by simp, by simp, fun _ => rfl⟩
    · cases h
  · cases h
    exact ⟨hpos, hedge.seam, hs.1, hs.2.1, fun _ => hedge, fun hk => absurd hk hs.2.2⟩

theorem signPiece?_fits (h : signPiece? (b :: t) = some p) : PieceFits (b :: t) p := by
  unfold signPiece? at h
  split at h
  · next n hn =>
    cases h
    obtain ⟨ha, hpos⟩ := ascii_castLength? hn
    exact token_fits hb (by simp) hpos (ha.seam hpos)
  · obtain ⟨s, hs, rfl⟩ := Option.map_eq_some_iff.mp h
    obtain ⟨hm, hp⟩ := sign?_spec hs
    obtain ⟨hne, hbytes, -⟩ := signs_spec s hm
    have hpos := List.length_pos_of_ne_nil hne
    exact ⟨hpos, (Ascii.of_isPrefix hp fun x hx => (hbytes x hx).1).seam hpos,
      ⟨hm, (List.prefix_iff_eq_take.mp hp).symm⟩, by simp, by simp, by simp⟩

theorem solidPiece?_fits {embedded : Bool} (h : solidPiece? embedded (b :: t) = some p) :
    PieceFits (b :: t) p := by
  unfold solidPiece? at h
  split at h
  · next h₁ =>
    cases h
    exact startsWith_iff.mp h₁
  split at h
  · cases h
    exact token_fits hb (by simp) (by omega) ((edge_identLength _).seam.drop (Nat.succ_le_succ (Nat.zero_le _)))
  split at h
  · next h₃ => exact @quotedPiece?_fits b t p hb 0 h₃ h
  split at h
  · next h₄ =>
    rw [Bool.and_eq_true] at h₄
    exact @quotedPiece?_fits b t p hb 1 h₄.2 h
  split at h
  · next h₅ =>
    obtain ⟨q, hq, rfl⟩ := Option.map_eq_some_iff.mp h
    refine quotedTemplate?_fits (by decide) (by decide) ?_ hq
    exact (ascii_startsWith (s := "`") (by decide) h₅).seam (by decide)
  split at h
  · next q hq =>
    cases h
    exact documentPiece?_fits hq
  split at h
  · next h₆ => exact namePiece?_fits hb h₆ h
  split at h
  · next h₇ =>
    obtain ⟨n, hn, rfl⟩ := Option.map_eq_some_iff.mp h
    obtain ⟨ha, hpos⟩ := numberLength?_spec hn h₇
    exact token_fits hb (by simp) hpos (ha.seam hpos)
  · exact signPiece?_fits hb h

end Piece

/-- **The piece that code starts with lies well**, and starts with ink unless it is blank. -/
theorem piece?_fits {embedded : Bool} {b : UInt8} {t : Text} {p : Piece}
    (h : piece? embedded (b :: t) = some p) :
    PieceFits (b :: t) p ∧ ((∃ n, p = .blank n) ∨ isCodeBlank b = false) := by
  unfold piece? at h
  split at h
  · cases h
  · next ht =>
    have hb := head_of_trivia? ht
    exact ⟨solidPiece?_fits hb h, Or.inr hb⟩
  · next n hn ht =>
    cases h
    exact ⟨edge_trivia? ht (Nat.pos_of_ne_zero hn), Or.inl ⟨n, rfl⟩⟩

/-! ### Parts of the source -/

/-- The text stands in the source at the offset `pos` and cuts no character. -/
structure Segment (source : Text) (pos : ℕ) (t : Text) : Prop where
  text : t <+: source.drop pos
  le : pos + t.length ≤ source.length
  opens : source.isBoundary pos = true
  closes : source.isBoundary (pos + t.length) = true

namespace Segment

variable {source t : Text} {pos n a z : ℕ}

theorem getElem? (h : Segment source pos t) {i : ℕ} (hi : i < t.length) : source[pos + i]? = t[i]? := by
  rw [getElem?_of_isPrefix h.text (Nat.le_add_right _ _) (by omega), Nat.add_sub_cancel_left]

theorem isBoundary (hv : Encoded source) (h : Segment source pos t) (hn : Seam t n) :
    source.isBoundary (pos + n) = true := by
  have hle := h.le
  rcases hn with rfl | ⟨b, hb, hlt⟩ | ⟨k, b, rfl, hb, hlt⟩
  · exact h.closes
  · have hn := (List.getElem?_eq_some_iff.mp hb).1
    exact (cuts_at hv ((h.getElem? hn).trans hb) (Or.inl hlt)).isBoundary (by omega)
  · have hk := (List.getElem?_eq_some_iff.mp hb).1
    exact (cuts_behind hv ((h.getElem? hk).trans hb) hlt).isBoundary (by omega)

theorem drop (h : Segment source pos t) (hn : n ≤ t.length) (hb : source.isBoundary (pos + n) = true) :
    Segment source (pos + n) (t.drop n) where
  text := by
    rw [← List.drop_drop]
    obtain ⟨r, hr⟩ := h.text
    exact ⟨r, by rw [← hr, List.drop_append_of_le_length hn]⟩
  le := by
    have := h.le
    rw [List.length_drop]
    omega
  opens := hb
  closes := by
    rw [List.length_drop, show pos + n + (t.length - n) = pos + t.length by omega]
    exact h.closes

theorem take (h : Segment source pos t) (hn : n ≤ t.length) (hb : source.isBoundary (pos + n) = true) :
    Segment source pos (t.take n) where
  text := (List.take_prefix n t).trans h.text
  le := by
    have := h.le
    rw [List.length_take]
    omega
  opens := h.opens
  closes := by rwa [List.length_take, Nat.min_eq_left hn]

theorem slice (h : Segment source pos t) (haz : a ≤ z) (hz : z ≤ t.length)
    (ha : source.isBoundary (pos + a) = true) (hb : source.isBoundary (pos + z) = true) :
    Segment source (pos + a) (t.slice a z) := by
  refine (h.drop (haz.trans hz) ha).take (by rw [List.length_drop]; omega) ?_
  rwa [show pos + a + (z - a) = pos + z by omega]

theorem add_length_drop (hn : n ≤ t.length) : pos + n + (t.drop n).length = pos + t.length := by
  rw [List.length_drop]
  omega

theorem slice_eq (h : Segment source pos t) : source.slice pos (pos + t.length) = t := by
  rw [Text.slice, Nat.add_sub_cancel_left]
  exact (List.prefix_iff_eq_take.mp h.text).symm

theorem length_slice (hz : z ≤ t.length) : (t.slice a z).length = z - a := by
  simp only [Text.slice, List.length_take, List.length_drop]
  omega

theorem empty (hn : n ≤ source.length) (hb : source.isBoundary n = true) : Segment source n [] :=
  ⟨List.nil_prefix, hn, hb, hb⟩

/-- The name of a label ends between characters wherever it is repeated. -/
theorem isBoundary_name (hv : Encoded source) (h : Segment source pos t) {name : Text} (hname : NameIn t name)
    (hn : name <+: t.drop n) (hle : n + name.length ≤ t.length) :
    source.isBoundary (pos + n) = true ∧ source.isBoundary (pos + n + name.length) = true := by
  obtain ⟨hne, k, hk, hk', hpk⟩ := hname
  have hlen := h.le
  have hkle := hk'.le
  have hat : ∀ {m}, name <+: t.drop m → m ≤ t.length → name <+: source.drop (pos + m) := by
    intro m hm hml
    obtain ⟨r, hr⟩ := h.text
    rw [← List.drop_drop, ← hr, List.drop_append_of_le_length hml]
    exact hm.trans (List.prefix_append _ _)
  -- The name is a row of whole characters, so it starts and ends like one.
  have henc : Encoded name := hv.of_isBoundary (hat hpk (by omega)) (by omega) (h.isBoundary hv hk)
    (by rw [Nat.add_assoc]; exact h.isBoundary hv hk')
  have hps := hat hn (by omega)
  have hcut : Cuts source (pos + n) := by
    cases name with
    | nil => exact absurd rfl hne
    | cons b rest =>
      refine cuts_at hv (b := b) ?_ henc.head_not_continuation
      rw [getElem?_of_isPrefix hps le_rfl (by simp), Nat.sub_self, List.getElem?_cons_zero]
  refine ⟨hcut.isBoundary (by omega), ?_⟩
  have hdrop : Cuts (source.drop (pos + n)) name.length := by
    obtain ⟨r, hr⟩ := hps
    have henc' := hcut.drop
    rw [← hr] at henc' ⊢
    exact ⟨by rwa [List.take_left], by rw [List.drop_left]; exact henc.of_append henc'⟩
  exact (hcut.add hdrop).isBoundary (by omega)

end Segment

/-- The text stands in the source, and no name goes on behind its end. -/
structure Stretch (source : Text) (pos : ℕ) (t : Text) : Prop extends Segment source pos t where
  ends : Border source (pos + t.length)

namespace Stretch

variable {source t : Text} {pos n a z : ℕ}

theorem border (h : Stretch source pos t) (hn : Edge t n) : Border source (pos + n) := by
  have hident : ∀ {k b}, t[k]? = some b → isIdentByte b = false → source.identAt (pos + k) = false := by
    intro k b hb hident
    rw [Bool.eq_false_iff, ne_eq, identAt_iff, h.getElem? (List.getElem?_eq_some_iff.mp hb).1, hb]
    rintro ⟨x, hx, hident'⟩
    cases hx
    exact Bool.false_ne_true (hident.symm.trans hident')
  rcases hn with rfl | ⟨b, hb, hn⟩ | ⟨k, b, rfl, hb, hn⟩
  · exact h.ends
  · exact fun _ => hident hb hn
  · have hk := (List.getElem?_eq_some_iff.mp hb).1
    have hle := h.le
    intro hbefore
    rw [← Nat.add_assoc, identBefore_succ (by omega), hident hb hn] at hbefore
    cases hbefore

theorem drop (h : Stretch source pos t) (hn : n ≤ t.length) (hb : source.isBoundary (pos + n) = true) :
    Stretch source (pos + n) (t.drop n) where
  toSegment := h.toSegment.drop hn hb
  ends := by
    rw [Segment.add_length_drop hn]
    exact h.ends

end Stretch

/-! ### Tokens in the source -/

/-- The token is written in the source at its place. No name goes on behind its end. -/
structure Token.Sound (source : Text) (t : Token) : Prop extends Segment source t.start t.text where
  spelled : Spelled t.kind t.text
  ends : t.kind.IsName → Border source t.stop

/-- The tokens are written in the source between the offsets `lo` and `hi`, one after the other. -/
def Tiled (source : Text) (lo hi : ℕ) : List Token → Prop
  | [] => lo ≤ hi
  | t :: ts => lo ≤ t.start ∧ t.Sound source ∧ Tiled source t.stop hi ts

/-- How tokens follow each other. What comes behind a text outside the code is a tag, unless it is the end of
an embedded expression, and directly in front of it is a closing tag. Only at the start of a file there can be
two texts. A name does not go on in the next one. -/
structure Follows (source : Text) (a b : Token) : Prop where
  behind : a.kind = .inlineText → b.kind = .openTag ∨ b.kind = .echoTag ∨ b.kind = .embedEnd ∨
    a.start = 0 ∧ b.kind = .inlineText
  front : b.kind = .inlineText → a.kind = .closeTag ∧ a.stop = b.start ∨ a.kind = .inlineText
  halt : a.kind = .halt → b.kind = .embedEnd
  parted : a.kind.IsName → b.kind.IsName → Border source b.start

namespace Tiled

variable {source : Text} {lo lo' mid hi : ℕ} {ts us : List Token}

theorem le : ∀ {lo ts}, Tiled source lo hi ts → lo ≤ hi
  | _, [], h => h
  | _, _ :: _, h => h.1.trans ((Nat.le_add_right _ _).trans (le h.2.2))

theorem mono (h : Tiled source lo hi ts) (hlo : lo' ≤ lo) : Tiled source lo' hi ts := by
  cases ts with
  | nil => exact hlo.trans h
  | cons t ts => exact ⟨hlo.trans h.1, h.2⟩

theorem append : ∀ {lo ts}, Tiled source lo mid ts → Tiled source mid hi us → Tiled source lo hi (ts ++ us)
  | _, [], h, h' => h'.mono h
  | _, _ :: _, h, h' => ⟨h.1, h.2.1, append h.2.2 h'⟩

theorem mem {t : Token} : ∀ {lo ts}, Tiled source lo hi ts → t ∈ ts → t.Sound source ∧ lo ≤ t.start
  | lo, x :: ts, h, ht => by
    rcases List.mem_cons.mp ht with rfl | ht
    · exact ⟨h.2.1, h.1⟩
    · have hm := mem h.2.2 ht
      have : x.start ≤ x.stop := Nat.le_add_right _ _
      exact ⟨hm.1, h.1.trans (this.trans hm.2)⟩

theorem ordered : ∀ {lo ts}, Tiled source lo hi ts → ts.Pairwise fun a b => a.stop ≤ b.start
  | _, [], _ => .nil
  | _, _ :: _, h => .cons (fun _ hy => (mem h.2.2 hy).2) (ordered h.2.2)

end Tiled

/-! ### The tokens of a file -/

/-- The tokens stand in the source between the offsets `lo` and `hi`, with a tag behind every text. -/
structure Lexed (source : Text) (lo hi : ℕ) (ts : List Token) : Prop where
  tiled : Tiled source lo hi ts
  chain : ts.IsChain (Follows source)

/-- The tokens stand in the source, and are those of code at first. If no name goes on at the start of the code, none
goes on in the first name. -/
structure Coded (source : Text) (lo hi : ℕ) (ts : List Token) : Prop extends Lexed source lo hi ts where
  first : ∀ t ∈ ts.head?, t.kind ≠ .inlineText
  starts : ∀ t ∈ ts.head?, t.kind.IsName → Border source lo → Border source t.start

namespace Lexed

variable {source : Text} {lo mid hi : ℕ} {t : Token} {ts us : List Token}

theorem nil (h : lo ≤ hi) : Lexed source lo hi [] := ⟨h, .nil⟩

theorem append (h : Lexed source lo mid ts) (h' : Lexed source mid hi us)
    (hf : ∀ x ∈ ts.getLast?, ∀ y ∈ us.head?, Follows source x y) : Lexed source lo hi (ts ++ us) :=
  ⟨h.tiled.append h'.tiled, List.isChain_append.mpr ⟨h.chain, h'.chain, hf⟩⟩

theorem inlineToken {u : Text} {pos : ℕ} (h : Segment source pos u) :
    Lexed source pos (pos + u.length) (inlineToken pos u) := by
  rw [Source.inlineToken]
  split
  · next hu =>
    rw [List.isEmpty_iff] at hu
    exact .nil (Nat.le_add_right _ _)
  · next hu =>
    rw [List.isEmpty_iff] at hu
    exact ⟨⟨le_rfl, ⟨h, hu, by simp⟩, le_rfl⟩, List.isChain_singleton _⟩

end Lexed

theorem mem_inlineToken {pos : ℕ} {u : Text} {x : Token} (h : x ∈ inlineToken pos u) :
    x.kind = .inlineText ∧ x.start = pos := by
  rw [inlineToken] at h
  split at h
  · cases h
  · rw [List.mem_singleton] at h
    exact ⟨by rw [h], by rw [h]⟩

namespace Coded

variable {source : Text} {lo mid hi : ℕ} {t : Token} {ts us : List Token}

theorem nil (h : lo ≤ hi) : Coded source lo hi [] := ⟨.nil h, by simp, by simp⟩

theorem mono {lo' : ℕ} (h : Coded source lo hi ts) (hlo : lo' ≤ lo)
    (hs : ∀ t ∈ ts.head?, t.kind.IsName → Border source lo) : Coded source lo' hi ts :=
  ⟨⟨h.tiled.mono hlo, h.chain⟩, h.first, fun t ht hk _ => h.starts t ht hk (hs t ht hk)⟩

theorem consOf (h : Lexed source t.stop hi ts) (hlo : lo ≤ t.start) (ht : t.Sound source)
    (hk : t.kind ≠ .inlineText) (hs : t.kind.IsName → lo = t.start) (hf : ∀ y ∈ ts.head?, Follows source t y) :
    Coded source lo hi (t :: ts) where
  tiled := ⟨hlo, ht, h.tiled⟩
  chain := List.isChain_cons.mpr ⟨hf, h.chain⟩
  first x hx := by
    cases hx
    exact hk
  starts x hx hkx hb := by
    cases hx
    exact hs hkx ▸ hb

theorem consClose (h : Lexed source t.stop hi ts) (hlo : lo ≤ t.start) (ht : t.Sound source) (hk : t.kind = .closeTag)
    (hf : ∀ y ∈ ts.head?, y.kind = .inlineText → t.stop = y.start) : Coded source lo hi (t :: ts) :=
  consOf h hlo ht (by simp [hk]) (by simp [hk]) fun y hy =>
    ⟨by simp [hk], fun hi => Or.inl ⟨hk, hf y hy hi⟩, by simp [hk], by simp [hk]⟩

theorem cons (h : Coded source t.stop hi ts) (hlo : lo ≤ t.start) (ht : t.Sound source)
    (hk : t.kind ≠ .inlineText ∧ (t.kind = .halt → ts = [])) (hs : t.kind.IsName → lo = t.start) :
    Coded source lo hi (t :: ts) :=
  consOf h.toLexed hlo ht hk.1 hs fun y hy =>
    ⟨fun hi => absurd hi hk.1, fun hi => absurd hi (h.first y hy), fun hh => (by simp [hk.2 hh] at hy),
      fun hn hy' => h.starts y hy hy' (ht.ends hn)⟩

/-- Tokens of code in front of the end of an embedded expression. -/
theorem append (h : Coded source lo mid ts) (h' : Coded source mid hi (t :: us)) (hk : t.kind = .embedEnd) :
    Coded source lo hi (ts ++ t :: us) where
  toLexed := by
    refine h.toLexed.append h'.toLexed fun x _ y hy => ?_
    cases hy
    exact ⟨fun _ => Or.inr (Or.inr (Or.inl hk)), by simp [hk], fun _ => hk, by simp [hk]⟩
  first x hx := by
    cases ts with
    | nil => exact h'.first x hx
    | cons y ts => exact h.first x hx
  starts x hx hkx := by
    cases ts with
    | nil =>
      cases hx
      simp [hk] at hkx
    | cons y ts => exact h.starts x hx hkx

end Coded

/-- A file goes on with text or with a tag. -/
theorem head_lexText {fuel pos : ℕ} {t : Text} {ts : List Token} (h : lexText fuel pos t = some ts) :
    ∀ y ∈ ts.head?, y.kind = .inlineText ∧ y.start = pos ∨ y.kind = .openTag ∨ y.kind = .echoTag := by
  cases fuel with
  | zero => simp [lexText] at h
  | succ fuel =>
    rw [lexText] at h
    simp only at h
    intro y hy
    split at h
    · cases h
      exact Or.inl (mem_inlineToken (List.mem_of_mem_head? hy))
    · next hne =>
      simp only [Option.bind_eq_bind, Option.bind_eq_some_iff, Option.pure_def, Option.some.injEq] at h
      obtain ⟨rest, -, rfl⟩ := h
      rw [List.head?_append] at hy
      cases hin : (inlineToken pos (t.take (inlineLength t))).head? with
      | some x =>
        rw [hin] at hy
        cases hy
        exact Or.inl (mem_inlineToken (List.mem_of_mem_head? hin))
      | none =>
        rw [hin] at hy
        cases hy
        exact Or.inr (openingTag_spec (tag_of_inlineLength hne) rfl).1

section Lexing

variable {source : Text} (hv : Encoded source)
include hv

/-- The embedded expressions of a string, in front of the tokens `us` behind them. -/
theorem embeds_coded {fuel pos hi : ℕ} {t : Text} (hseg : Stretch source pos t)
    (ih : ∀ {pos : ℕ} {t : Text} {ts : List Token}, Stretch source pos t →
      lexCode fuel true pos t = some ts → Coded source pos (pos + t.length) ts) :
    ∀ {es : List Embed} {lo : ℕ} {groups : List (List Token)} {us : List Token},
      EmbedsIn t lo hi es → Coded source (pos + hi) (pos + t.length) us → (∀ x ∈ us.head?, ¬ x.kind.IsName) →
      (es.mapM fun e => do
        let inner ← lexCode fuel true (pos + e.start) (t.slice e.start (e.start + e.length))
        return ⟨.embedStart, [], pos + e.start⟩ :: inner ++ [⟨.embedEnd, [], pos + e.start + e.length⟩]) =
          some groups →
      Coded source (pos + lo) (pos + t.length) (groups.flatten ++ us)
  | [], lo, groups, us, hes, hus, hn, h => by
    rw [List.mapM_nil] at h
    cases h
    exact hus.mono (Nat.add_le_add_left hes.le pos) fun x hx hk => absurd hk (hn x hx)
  | e :: es, lo, groups, us, hes, hus, hn, h => by
    simp only [List.mapM_cons, Option.bind_eq_bind, Option.bind_eq_some_iff, Option.pure_def,
      Option.some.injEq] at h
    obtain ⟨group, ⟨inner, hinner, rfl⟩, groups', hgroups, rfl⟩ := h
    obtain ⟨hlo, hstart, hstop, hrest⟩ := hes
    have hb := hseg.isBoundary hv hstart
    have hb' := hseg.isBoundary hv hstop.seam
    have hsrc := hseg.le
    have hstart' := hstart.le
    have hstop' := hstop.le
    have hle : pos + e.start ≤ source.length ∧ pos + (e.start + e.length) ≤ source.length := by omega
    have hends : Border source (pos + e.start + (t.slice e.start (e.start + e.length)).length) := by
      rw [Segment.length_slice hstop', Nat.add_sub_cancel_left, Nat.add_assoc]
      exact hseg.border hstop
    have hin := ih ⟨hseg.slice (Nat.le_add_right _ _) hstop' hb hb', hends⟩ hinner
    rw [Segment.length_slice hstop', Nat.add_sub_cancel_left] at hin
    have htail := embeds_coded hseg ih hrest hus hn hgroups
    simp only [List.flatten_cons, List.cons_append, List.append_assoc, List.nil_append]
    refine .cons ?_ (Nat.add_le_add_left hlo pos) ⟨.empty hle.1 hb, trivial, by simp⟩ (by simp)
      (by simp)
    refine hin.append ?_ rfl
    rw [Nat.add_assoc] at hin ⊢
    exact .cons htail le_rfl ⟨.empty hle.2 hb', trivial, by simp⟩ (by simp) fun _ => rfl

mutual

theorem lexCode_coded : ∀ {fuel : ℕ} {embedded : Bool} {pos : ℕ} {t : Text} {ts : List Token},
    Stretch source pos t → lexCode fuel embedded pos t = some ts → Coded source pos (pos + t.length) ts
  | 0, _, _, _, _, _, h => by simp [lexCode] at h
  | _ + 1, _, _, [], _, _, h => by
    rw [lexCode] at h
    cases h
    exact .nil (Nat.le_add_right _ _)
  | fuel + 1, embedded, pos, b :: bs, ts, hseg, h => by
    rw [lexCode] at h
    cases hp : piece? embedded (b :: bs) with
    | none => simp [hp] at h
    | some p =>
      rw [hp] at h
      obtain ⟨hfits, hhead⟩ := piece?_fits hp
      cases p with
      | blank n =>
        have ih := lexCode_coded (hseg.drop hfits.le (hseg.isBoundary hv hfits.seam)) h
        rw [Segment.add_length_drop hfits.le] at ih
        exact ih.mono (Nat.le_add_right _ _) fun _ _ _ => hseg.border hfits
      | token k n =>
        obtain ⟨-, hseam, hspelled, hk, hedge, hhalt⟩ := hfits
        obtain ⟨rest, hrest, rfl⟩ := Option.map_eq_some_iff.mp h
        have hb := hseg.isBoundary hv hseam
        have ih := lexCode_coded (hseg.drop hseam.le hb) hrest
        rw [Segment.add_length_drop hseam.le] at ih
        have hend : k = .halt → rest = [] := by
          intro hkh
          rw [hhalt hkh, List.drop_length] at hrest
          cases fuel with
          | zero => simp [lexCode] at hrest
          | succ fuel => simpa [lexCode] using hrest.symm
        refine .cons ?_ le_rfl ⟨hseg.take hseam.le hb, hspelled, fun hn => ?_⟩ ⟨hk, hend⟩ fun _ => rfl
        · rwa [Token.stop, List.length_take, Nat.min_eq_left hseam.le]
        · rw [Token.stop, List.length_take, Nat.min_eq_left hseam.le]
          exact hseg.border (hedge hn)
      | close =>
        obtain ⟨rest, hrest, rfl⟩ := Option.map_eq_some_iff.mp h
        have hascii : Ascii (b :: bs) 2 := .of_isPrefix hfits fun x hx => (forall_of_all_isDark rfl x hx).1
        have hb := hseg.isBoundary hv (hascii.seam (by decide))
        have ih := lexText_lexed (hseg.drop hascii.le hb) hrest
        rw [Segment.add_length_drop hascii.le] at ih
        have hstop : Token.stop ⟨.closeTag, (b :: bs).take 2, pos⟩ = pos + 2 := by
          rw [Token.stop, List.length_take, Nat.min_eq_left hascii.le]
        refine .consClose ?_ le_rfl ⟨hseg.take hascii.le hb, ?_, by simp⟩ rfl fun y hy hk => ?_
        · rwa [hstop]
        · exact (List.prefix_iff_eq_take.mp hfits).symm
        · rcases head_lexText hrest y hy with h | h | h
          · exact hstop.trans h.2.symm
          all_goals
            rw [h] at hk
            cases hk
      | template p =>
        have hink : isCodeBlank b = false := hhead.resolve_left (by simp)
        obtain ⟨hpos, hopened, hembeds, hle, hclosed⟩ := hfits
        simp only [Option.bind_eq_bind, Option.bind_eq_some_iff, Option.pure_def, Option.some.injEq] at h
        obtain ⟨groups, hgroups, rest, hrest, rfl⟩ := h
        have hends : source.isBoundary (pos + (p.opening + p.between)) = true ∧
            source.isBoundary (pos + (p.opening + p.between + p.closing)) = true := by
          rcases hclosed with ⟨h₁, h₂⟩ | ⟨name, hname, hlen, hp⟩
          · exact ⟨hseg.isBoundary hv h₁, hseg.isBoundary hv h₂⟩
          · have := hseg.isBoundary_name hv hname hp (by omega)
            rwa [hlen, Nat.add_assoc] at this
        have hb := hseg.isBoundary hv hopened
        rw [show pos + (p.opening + p.between) + p.closing = pos + (p.opening + p.between + p.closing) by omega]
          at hrest
        have ih := lexCode_coded (hseg.drop hle hends.2) hrest
        rw [Segment.add_length_drop hle] at ih
        have hclose : Coded source (pos + (p.opening + p.between)) (pos + (b :: bs).length)
            (⟨.templateEnd, Text.slice (b :: bs) (p.opening + p.between) (p.opening + p.between + p.closing),
              pos + (p.opening + p.between)⟩ :: rest) := by
          refine .cons ?_ le_rfl ⟨hseg.slice (Nat.le_add_right _ _) hle hends.1 hends.2, trivial,
            by simp⟩ (by simp) fun _ => rfl
          rwa [Token.stop, Segment.length_slice hle, Nat.add_sub_cancel_left, Nat.add_assoc]
        have hall := embeds_coded hv hseg lexCode_coded hembeds hclose
          (fun x hx => by cases hx; simp) hgroups
        obtain ⟨r, hr⟩ := take_eq_cons (b := b) (t := bs) hpos
        refine .cons ?_ le_rfl ⟨hseg.take hopened.le hb, ⟨b, r, hr, hink⟩, by simp⟩ (by simp)
          fun _ => rfl
        rwa [Token.stop, List.length_take, Nat.min_eq_left hopened.le]

theorem lexText_lexed : ∀ {fuel pos : ℕ} {t : Text} {ts : List Token}, Stretch source pos t →
    lexText fuel pos t = some ts → Lexed source pos (pos + t.length) ts
  | 0, _, _, _, _, h => by simp [lexText] at h
  | fuel + 1, pos, t, ts, hseg, h => by
    have hn := seam_inlineLength t
    have hb := hseg.isBoundary hv hn
    obtain ⟨kind, length, hot⟩ : ∃ kind length, openingTag (t.drop (inlineLength t)) = (kind, length) :=
      ⟨_, _, rfl⟩
    rw [lexText, hot] at h
    simp only at h
    split at h
    · cases h
      exact .inlineToken hseg.toSegment
    · next hne =>
      simp only [Option.bind_eq_bind, Option.bind_eq_some_iff, Option.pure_def, Option.some.injEq] at h
      obtain ⟨rest, hrest, rfl⟩ := h
      have hdrop := hseg.drop hn.le hb
      have htag := tag_of_inlineLength hne
      obtain ⟨hk, hpos, hascii, hink⟩ := openingTag_spec htag hot
      have hb' := hdrop.isBoundary hv (hascii.seam hpos)
      have htail := hdrop.drop hascii.le hb'
      rw [List.drop_drop] at htail
      have ih := lexCode_coded htail hrest
      have hinline := Lexed.inlineToken (hseg.take hn.le hb)
      rw [List.length_take, Nat.min_eq_left hn.le] at hinline
      have hlen := @Segment.add_length_drop _ (pos + inlineLength t) _ hascii.le
      rw [List.drop_drop, Segment.add_length_drop hn.le] at hlen
      rw [hlen] at ih
      have hcode : Coded source (pos + inlineLength t) (pos + t.length)
          (⟨kind, (t.drop (inlineLength t)).take length, pos + inlineLength t⟩ :: rest) := by
        refine .cons ?_ le_rfl ⟨hdrop.take hascii.le hb', ?_, ?_⟩ ?_ fun _ => rfl
        · rwa [Token.stop, List.length_take, Nat.min_eq_left hascii.le]
        · exact spelled_openingTag htag hk hpos hascii hink
        · rcases hk with rfl | rfl <;> simp
        · rcases hk with rfl | rfl <;> simp
      refine hinline.append hcode.toLexed fun x hx y hy => ?_
      cases hy
      have hx := (mem_inlineToken (List.mem_of_getLast? hx)).1
      rcases hk with rfl | rfl <;> exact ⟨by simp, by simp, by simp [hx], by simp⟩

end

/-- **The tokens of a valid file stand in it**, one after the other, with a tag behind every text. -/
theorem tokens?_lexed {ts : List Token} (h : tokens? source = some ts) : Lexed source 0 source.length ts := by
  unfold tokens? at h
  simp only [Option.bind_eq_bind, Option.bind_eq_some_iff, Option.pure_def, Option.some.injEq] at h
  obtain ⟨rest, hrest, rfl⟩ := h
  have hseg : Stretch source 0 source := by
    have h₀ := (Cuts.zero hv).isBoundary (Nat.zero_le _)
    have h₁ := (Cuts.end_of_le hv le_rfl).isBoundary le_rfl
    refine ⟨⟨List.prefix_rfl, by omega, h₀, by rwa [Nat.zero_add]⟩, ?_⟩
    rw [Nat.zero_add]
    exact border_length source
  have hn : interpreterLength source ≤ source.length ∧
      source.isBoundary (interpreterLength source) = true := by
    by_cases hz : interpreterLength source = 0
    · rw [hz]
      exact ⟨Nat.zero_le _, hseg.opens⟩
    · have hs := seam_interpreterLength hz
      have hb := hseg.isBoundary hv hs
      rw [Nat.zero_add] at hb
      exact ⟨hs.le, hb⟩
  have hb : source.isBoundary (0 + interpreterLength source) = true := by rw [Nat.zero_add]; exact hn.2
  have hline := Lexed.inlineToken (hseg.take hn.1 hb)
  have htail := hseg.drop hn.1 hb
  rw [Nat.zero_add] at htail
  have ih := lexText_lexed hv htail hrest
  have hlen := @Segment.add_length_drop _ 0 _ hn.1
  rw [Nat.zero_add, Nat.zero_add] at hlen
  rw [hlen] at ih
  rw [List.length_take, Nat.min_eq_left hn.1, Nat.zero_add] at hline
  refine hline.append ih fun x hx y hy => ?_
  -- The line stands at the start of the file.
  obtain ⟨hk, hstart⟩ := mem_inlineToken (List.mem_of_getLast? hx)
  refine ⟨fun _ => ?_, fun _ => Or.inr hk, by simp [hk], by simp [hk]⟩
  rcases head_lexText hrest y hy with h | h | h
  · exact Or.inr (Or.inr (Or.inr ⟨hstart, h.1⟩))
  · exact Or.inl h
  · exact Or.inr (Or.inl h)

end Lexing

/-! ### What stands in front of a text -/

theorem Token.Sound.lt_stop {source : Text} {t : Token} (h : t.Sound source)
    (hk : t.kind = .closeTag ∨ t.kind = .inlineText) : t.start < t.stop := by
  have hs := h.spelled
  have hne : t.text ≠ [] := by
    rcases hk with hk | hk
    · rw [hk] at hs
      have hs : t.text = _ := hs
      rw [hs]
      decide
    · rwa [hk] at hs
  exact Nat.lt_add_of_pos_right (List.length_pos_of_ne_nil hne)

/-- **A text outside the code stands directly behind a closing tag**, unless no code is in front of it. -/
theorem Lexed.closed {source : Text} {hi : ℕ} {t : Token} {ts : List Token} (h : Lexed source 0 hi ts) (ht : t ∈ ts)
    (hk : t.kind = .inlineText) :
    (∃ a ∈ ts, a.kind = .closeTag ∧ a.stop = t.start) ∨ ∀ u ∈ ts, u.start < t.start → u.kind = .inlineText := by
  have hordered := h.tiled.ordered
  obtain ⟨us, vs, rfl⟩ := List.append_of_mem ht
  have hbehind : ∀ u ∈ t :: vs, t.start ≤ u.start := by
    intro u hu
    have : t.start ≤ t.stop := Nat.le_add_right _ _
    rcases List.mem_cons.mp hu with rfl | hu
    · exact le_rfl
    · exact this.trans (List.rel_of_pairwise_cons (List.pairwise_append.mp hordered).2.1 hu)
  rcases List.eq_nil_or_concat us with rfl | ⟨us, a, rfl⟩
  · exact Or.inr fun u hu hlt => absurd (hbehind u hu) (by omega)
  · have hchain := h.chain
    rw [List.concat_eq_append, List.append_assoc] at hchain ht hordered h ⊢
    obtain ⟨-, hchain', hlast⟩ := List.isChain_append.mp hchain
    have hat := List.isChain_cons_cons.mp hchain'
    rcases hat.1.front hk with hclose | htext
    · exact Or.inl ⟨a, by simp, hclose⟩
    · -- Two texts in a row stand at the start of the file.
      have hzero : a.start = 0 := by
        rcases hat.1.behind htext with h' | h' | h' | h'
        · rw [hk] at h'
          cases h'
        · rw [hk] at h'
          cases h'
        · rw [hk] at h'
          cases h'
        · exact h'.1
      rcases List.eq_nil_or_concat us with rfl | ⟨us, b, rfl⟩
      · refine Or.inr fun u hu hlt => ?_
        rcases List.mem_cons.mp hu with rfl | hu
        · exact htext
        · exact absurd (hbehind u hu) (by omega)
      · have hba := hlast b (by simp) a (by simp)
        have hb := (h.tiled.mem (t := b) (by simp)).1.lt_stop ((hba.front htext).imp_left And.left)
        have : b.stop ≤ a.start := (List.pairwise_append.mp hordered).2.2 b (by simp) a (by simp)
        omega

end Polyfill.Source
