import Mathlib.Data.List.Pairwise
import Polyfill.Proofs.Text.Blank
import Polyfill.Proofs.Text.Words
import Polyfill.Source.SourceParser
import Polyfill.Source.Walk

/-! # How a tree lies in its source

The places in a tree refer to the source it was read from: they come in source order, one inside the other
as the tree says, cut no character, and start and end with ink. Only text outside the code may start or end
with blanks. Behind it in a list comes a tag, and directly in front of it the code is closed.

* `Placed`, `Inked`, `Solid`, `Sealed`: what is asked of a place.
* `Block.Laid`, `listLaid`, `StatementList.Laid`: a block or a statement list lies well, at every depth.
* `declaredLaid`: the declarations of a file lie well, and so do the bodies of the methods in them.
* `LawfulParser`: the parser makes trees that lie well in their sources. -/

namespace Polyfill.Source

open Text

/-! ### Places -/

theorem rel_or_rel_of_pairwise {α : Type} {r : α → α → Prop} {xs : List α} (h : xs.Pairwise r) {a b : α}
    (ha : a ∈ xs) (hb : b ∈ xs) (hne : a ≠ b) : r a b ∨ r b a := by
  have : Std.Symm fun a b => r a b ∨ r b a := ⟨fun _ _ => Or.symm⟩
  exact (h.imp Or.inl).forall (R := fun a b => r a b ∨ r b a) ha hb hne

/-- The place holds bytes of the source and cuts no character. -/
structure Placed (source : Text) (s : Span) : Prop where
  lt : s.start < s.stop
  le : s.stop ≤ source.length
  opens : source.isBoundary s.start = true
  closes : source.isBoundary s.stop = true

/-- The place starts and ends with ink. -/
structure Inked (source : Text) (s : Span) : Prop extends Placed source s where
  first : Ink source s.start
  last : Ink source (s.stop - 1)

/-- The place starts with ink and ends with an ASCII byte that is no blank. -/
structure Solid (source : Text) (s : Span) : Prop extends Placed source s where
  first : Ink source s.start
  last : Dark source (s.stop - 1)

theorem Solid.inked {source : Text} {s : Span} (h : Solid source s) : Inked source s :=
  { h with last := h.last.ink }

/-- The place holds an ASCII byte that is neither a blank nor a semicolon. -/
def Marked (source : Text) (s : Span) : Prop :=
  ∃ k b, s.start ≤ k ∧ k < s.stop ∧ source[k]? = some b ∧ isCodeBlank b = false ∧ b < 0x80 ∧ b ≠ 0x3B

section Tokens

variable [SourceParser]

/-- The place is that of a token of the given kind. -/
def TokenAt (source : Text) (k : TokenKind) (s : Span) : Prop :=
  ∃ t ∈ SourceParser.tokens source, t.kind = k ∧ s = ⟨t.start, t.stop⟩

/-- The byte at the offset `i` belongs to a token. -/
def InToken (source : Text) (i : ℕ) : Prop := ∃ k s, TokenAt source k s ∧ s.start ≤ i ∧ i < s.stop

/-- There is code in front of the offset `i`. -/
def CodeBefore (source : Text) (i : ℕ) : Prop := ∃ k s, TokenAt source k s ∧ k ≠ .inlineText ∧ s.start < i

theorem CodeBefore.mono {source : Text} {i i' : ℕ} (h : CodeBefore source i) (hle : i ≤ i') :
    CodeBefore source i' := by
  obtain ⟨k, s, hs, hk, hlt⟩ := h
  exact ⟨k, s, hs, hk, hlt.trans_le hle⟩

/-- The place is that of a statement in code. It ends with a closing tag if a text outside the code starts at its
end. -/
structure Sealed (source : Text) (s : Span) : Prop extends Solid source s where
  code : CodeBefore source s.stop
  tag : ∀ t, TokenAt source .inlineText t → t.start = s.stop → Text.ofString "?>" <:+ source.slice s.start s.stop

/-- The name is that of a token and is written at its place. The place starts and ends with ink and cuts no
identifier. -/
structure Named (source : Text) (n : Ident) : Prop extends Inked source n.span where
  text : source.slice n.span.start n.span.stop = n.text
  token : ∃ k, TokenAt source k n.span
  front : Border source n.span.start
  behind : Border source n.span.stop
  whole : source.identBefore n.span.start = true → source.identBefore n.span.stop = true

/-- The statement is a text outside the code. It starts directly behind a dark byte if there is code in front
of it. -/
def Stmt.IsText (source : Text) : Stmt → Prop
  | .other span _ _ => Placed source span ∧ TokenAt source .inlineText span ∧
      (CodeBefore source span.start → Dark source (span.start - 1))
  | _ => False

/-- The statement starts with a tag. -/
def Stmt.IsTag (source : Text) : Stmt → Prop
  | .other span _ _ => Solid source span ∧ Marked source span
  | _ => False

/-- The expression is of a form that a notice can have: a call of a method of a class, or an expression in
parentheses. -/
def Expr.IsCandidate : Expr → Prop
  | .parens _ => True
  | .staticCall _ _ _ => True
  | _ => False

theorem Stmt.IsText.placed {source : Text} {s : Stmt} (h : s.IsText source) : Placed source s.span := by
  cases s with
  | other => exact h.1
  | _ => exact h.elim

theorem Stmt.IsText.token {source : Text} {s : Stmt} (h : s.IsText source) : TokenAt source .inlineText s.span := by
  cases s with
  | other => exact h.2.1
  | _ => exact h.elim

theorem Stmt.IsText.dark {source : Text} {s : Stmt} (h : s.IsText source) (hc : CodeBefore source s.span.start) :
    Dark source (s.span.start - 1) := by
  cases s with
  | other => exact h.2.2 hc
  | _ => exact h.elim

omit [SourceParser] in
theorem Stmt.IsTag.solid {source : Text} {s : Stmt} (h : s.IsTag source) : Solid source s.span := by
  cases s with
  | other => exact h.1
  | _ => exact h.elim

mutual

/-- What is inside the statement lies well. -/
def Stmt.Laid (source : Text) : Stmt → Prop
  | .expression span e => e.IsCandidate → Marked source span
  | .block b => Marked source (Stmt.block b).span ∧ b.Laid source
  | .control span _ bodies => Marked source span ∧ bodiesLaid source span.start span.stop bodies
  | _ => True

/-- The block lies well, and its braces belong to no identifier. -/
def Block.Laid (source : Text) : Block → Prop
  | .mk opening closing ss =>
    TokenAt source (.sign "\x7b") opening ∧ Solid source opening ∧ Solid source closing ∧
      listLaid source opening.stop closing.start ss ∧
      source.identBefore opening.stop = false ∧ source.identAt closing.start = false

/-- The body lies well between the offsets `lo` and `hi`. A list without braces of its own has ink in front
of it and behind it. -/
def Body.Laid (source : Text) (lo hi : ℕ) : Body → Prop
  | .block b => b.Laid source ∧ lo ≤ b.opening.start ∧ b.closing.stop ≤ hi
  | .list ss => ∃ a z, lo ≤ a ∧ z < hi ∧ Ink source a ∧ Ink source z ∧ listLaid source (a + 1) z ss
  | .single s => s.Laid source ∧ lo ≤ s.span.start ∧ Placed source s.span ∧ s.span.stop ≤ hi

/-- The bodies lie well between the offsets `lo` and `hi`, one after the other. -/
def bodiesLaid (source : Text) (lo hi : ℕ) : List Body → Prop
  | [] => lo ≤ hi
  | b :: bs => ∃ mid, b.Laid source lo mid ∧ bodiesLaid source mid hi bs

/-- The statements lie well between the offsets `lo` and `hi`, one after the other. Each starts with a token, and
a text outside the code has code in front of it and a tag behind it. -/
def listLaid (source : Text) (lo hi : ℕ) : List Stmt → Prop
  | [] => lo ≤ hi
  | s :: ss => lo ≤ s.span.start ∧ s.Laid source ∧ listLaid source s.span.stop hi ss ∧
      (Sealed source s.span ∨ s.IsText source ∧ CodeBefore source s.span.start ∧ ∃ n ∈ ss.head?, n.IsTag source) ∧
      InToken source s.span.start

end

theorem listLaid_nil {source : Text} {lo hi : ℕ} : listLaid source lo hi [] ↔ lo ≤ hi := by
  rw [listLaid]

theorem listLaid_cons {source : Text} {lo hi : ℕ} {s : Stmt} {ss : List Stmt} :
    listLaid source lo hi (s :: ss) ↔ lo ≤ s.span.start ∧ s.Laid source ∧ listLaid source s.span.stop hi ss ∧
      (Sealed source s.span ∨ s.IsText source ∧ CodeBefore source s.span.start ∧ ∃ n ∈ ss.head?, n.IsTag source) ∧
      InToken source s.span.start := by
  rw [listLaid]

namespace listLaid

variable {source : Text} {lo hi : ℕ} {s : Stmt} {ss : List Stmt}

theorem sealed_or_isText : ∀ {lo ss}, listLaid source lo hi ss → s ∈ ss →
    Sealed source s.span ∨ s.IsText source ∧ CodeBefore source s.span.start
  | lo, x :: ss, h, hs => by
    rw [listLaid_cons] at h
    rcases List.mem_cons.mp hs with rfl | hs
    · exact h.2.2.2.1.imp_right fun h => ⟨h.1, h.2.1⟩
    · exact sealed_or_isText h.2.2.1 hs

theorem placed (h : listLaid source lo hi ss) (hs : s ∈ ss) : Placed source s.span := by
  rcases h.sealed_or_isText hs with h | h
  · exact h.toPlaced
  · exact h.1.placed

theorem laid : ∀ {lo ss}, listLaid source lo hi ss → s ∈ ss → s.Laid source
  | lo, x :: ss, h, hs => by
    rw [listLaid_cons] at h
    rcases List.mem_cons.mp hs with rfl | hs
    · exact h.2.1
    · exact laid h.2.2.1 hs

theorem le : ∀ {lo ss}, listLaid source lo hi ss → lo ≤ hi
  | lo, [], h => listLaid_nil.mp h
  | lo, x :: ss, h => by
    have hx := (h.placed (List.mem_cons_self ..)).lt
    rw [listLaid_cons] at h
    have := le h.2.2.1
    omega

theorem bounds : ∀ {lo ss}, listLaid source lo hi ss → s ∈ ss → lo ≤ s.span.start ∧ s.span.stop ≤ hi
  | lo, x :: ss, h, hs => by
    have hx := (h.placed (List.mem_cons_self ..)).lt
    rw [listLaid_cons] at h
    rcases List.mem_cons.mp hs with rfl | hs
    · exact ⟨h.1, le h.2.2.1⟩
    · have := bounds h.2.2.1 hs
      omega

theorem ordered : ∀ {lo ss}, listLaid source lo hi ss →
    ss.Pairwise fun a b => a.span.stop ≤ b.span.start
  | lo, [], _ => .nil
  | lo, x :: ss, h => by
    rw [listLaid_cons] at h
    exact .cons (fun y hy => (bounds h.2.2.1 hy).1) (ordered h.2.2.1)

theorem eq_or_apart : ∀ {lo ss} {s s' : Stmt}, listLaid source lo hi ss → s ∈ ss → s' ∈ ss →
    s = s' ∨ s.span.stop ≤ s'.span.start ∨ s'.span.stop ≤ s.span.start
  | lo, x :: ss, s, s', h, hs, hs' => by
    have ho := List.pairwise_cons.mp h.ordered
    rw [listLaid_cons] at h
    rcases List.mem_cons.mp hs with rfl | hm
    · rcases List.mem_cons.mp hs' with rfl | hm'
      · exact Or.inl rfl
      · exact Or.inr (Or.inl (ho.1 s' hm'))
    · rcases List.mem_cons.mp hs' with rfl | hm'
      · exact Or.inr (Or.inr (ho.1 s hm))
      · exact eq_or_apart h.2.2.1 hm hm'

/-- Behind a text outside the code comes a tag, and then the rest. -/
theorem tag_behind_text : ∀ {lo ss} {s x : Stmt}, listLaid source lo hi ss → s ∈ ss → ¬ Sealed source s.span →
    x ∈ ss → s.span.stop ≤ x.span.start → x.IsTag source ∨ s.span.stop < x.span.start
  | lo, y :: ss, s, x, h, hs, htext, hx, hle => by
    have hplaced := fun z (hz : z ∈ y :: ss) => h.placed hz
    have hlt := (hplaced s hs).lt
    have hltx := (hplaced x hx).lt
    rw [listLaid_cons] at h
    obtain ⟨-, -, htail, hy, -⟩ := h
    rcases List.mem_cons.mp hs with rfl | hs'
    · obtain ⟨-, -, n, hn, htag⟩ := hy.resolve_left htext
      rcases List.mem_cons.mp hx with rfl | hx
      · omega
      · match ss, htail, hn, hx with
        | m :: ss, htail, hn, hx =>
          cases hn
          rcases List.mem_cons.mp hx with rfl | hx
          · exact Or.inl htag
          · have hm := htag.solid.lt
            rw [listLaid_cons] at htail
            have := (bounds htail.2.2.1 hx).1
            exact Or.inr (by omega)
    · rcases List.mem_cons.mp hx with rfl | hx'
      · have := (bounds htail hs').1
        omega
      · exact tag_behind_text htail hs' htext hx' hle

theorem mono {hi' : ℕ} : ∀ {lo lo' : ℕ} {ss}, listLaid source lo hi ss → lo' ≤ lo → hi ≤ hi' →
    listLaid source lo' hi' ss
  | lo, lo', [], h, hlo, hhi => by
    rw [listLaid_nil] at h ⊢
    omega
  | lo, lo', s :: ss, h, hlo, hhi => by
    rw [listLaid_cons] at h ⊢
    exact ⟨hlo.trans h.1, h.2.1, mono h.2.2.1 le_rfl hhi, h.2.2.2⟩

end listLaid

theorem Body.Laid.mono {source : Text} {lo hi lo' hi' : ℕ} : ∀ {b : Body}, b.Laid source lo hi → lo' ≤ lo →
    hi ≤ hi' → b.Laid source lo' hi'
  | .block b, h, hlo, hhi => by
    rw [Body.Laid] at h ⊢
    exact ⟨h.1, hlo.trans h.2.1, h.2.2.trans hhi⟩
  | .list ss, h, hlo, hhi => by
    rw [Body.Laid] at h ⊢
    obtain ⟨a, z, ha, hz, hrest⟩ := h
    exact ⟨a, z, hlo.trans ha, hz.trans_le hhi, hrest⟩
  | .single s, h, hlo, hhi => by
    rw [Body.Laid] at h ⊢
    exact ⟨h.1, hlo.trans h.2.1, h.2.2.1, h.2.2.2.trans hhi⟩

theorem Body.Laid.le {source : Text} {lo hi : ℕ} : ∀ {b : Body}, b.Laid source lo hi → lo ≤ hi
  | .block (.mk opening closing ss), h => by
    rw [Body.Laid] at h
    obtain ⟨hb, hlo, hhi⟩ := h
    rw [Block.Laid] at hb
    have := hb.2.1.lt
    have := hb.2.2.1.lt
    have := hb.2.2.2.1.le
    exact hlo.trans ((by omega : opening.start ≤ closing.stop).trans hhi)
  | .list ss, h => by
    rw [Body.Laid] at h
    obtain ⟨a, z, ha, hz, -, -, hss⟩ := h
    have := hss.le
    omega
  | .single s, h => by
    rw [Body.Laid] at h
    exact h.2.1.trans (h.2.2.1.lt.le.trans h.2.2.2)

namespace bodiesLaid

variable {source : Text} {lo mid hi : ℕ} {b : Body} {bs bs' : List Body}

theorem le : ∀ {lo bs}, bodiesLaid source lo hi bs → lo ≤ hi
  | lo, [], h => by rwa [bodiesLaid] at h
  | lo, b :: bs, h => by
    rw [bodiesLaid] at h
    obtain ⟨mid, hb, hbs⟩ := h
    exact hb.le.trans (le hbs)

theorem single (h : b.Laid source lo hi) : bodiesLaid source lo hi [b] := by
  rw [bodiesLaid]
  exact ⟨hi, h, by rw [bodiesLaid]⟩

theorem mono {hi' : ℕ} : ∀ {lo lo' : ℕ} {bs}, bodiesLaid source lo hi bs → lo' ≤ lo → hi ≤ hi' →
    bodiesLaid source lo' hi' bs
  | lo, lo', [], h, hlo, hhi => by
    rw [bodiesLaid] at h ⊢
    omega
  | lo, lo', b :: bs, h, hlo, hhi => by
    rw [bodiesLaid] at h ⊢
    obtain ⟨mid, hb, hbs⟩ := h
    exact ⟨mid, hb.mono hlo le_rfl, mono hbs le_rfl hhi⟩

theorem append : ∀ {lo bs}, bodiesLaid source lo mid bs → bodiesLaid source mid hi bs' →
    bodiesLaid source lo hi (bs ++ bs')
  | lo, [], h, h' => by
    rw [bodiesLaid] at h
    exact h'.mono h le_rfl
  | lo, b :: bs, h, h' => by
    rw [bodiesLaid] at h
    obtain ⟨mid', hb, hbs⟩ := h
    rw [List.cons_append, bodiesLaid]
    exact ⟨mid', hb, append hbs h'⟩

end bodiesLaid

/-- The place of a block, with its braces. -/
def Block.place (b : Block) : Span := ⟨b.opening.start, b.closing.stop⟩

theorem Block.Laid.solid {source : Text} : ∀ {b : Block}, b.Laid source → Solid source b.place
  | .mk opening closing ss, h => by
    rw [Block.Laid] at h
    obtain ⟨-, ho, hc, hss, -⟩ := h
    have := ho.lt
    have := hc.lt
    have := hss.le
    exact ⟨⟨show opening.start < closing.stop by omega, hc.le, ho.opens, hc.closes⟩, ho.first, hc.last⟩

/-- The list lies well between the offsets `lo` and `hi`, with ink in front of it and behind it. -/
structure StatementList.Laid (source : Text) (lo hi : ℕ) (l : StatementList) : Prop where
  statements : listLaid source lo hi l.statements
  before : ∃ a, lo = a + 1 ∧ Ink source a
  after : Ink source hi
  braces : ∀ b ∈ l.braces, b = ⟨lo, hi⟩ ∧ source.isBoundary lo = true ∧ source.isBoundary hi = true ∧
    InToken source (lo - 1) ∧ source.identBefore lo = false ∧ source.identAt hi = false

/-! ### Declarations -/

/-- The blocks lie well between the offsets `lo` and `hi`, one after the other. -/
def blocksLaid (source : Text) (lo hi : ℕ) : List Block → Prop
  | [] => lo ≤ hi
  | b :: bs => lo ≤ b.place.start ∧ b.Laid source ∧ blocksLaid source b.place.stop hi bs

mutual

/-- What is declared in the statement lies well. -/
def Stmt.DeclaredLaid (source : Text) : Stmt → Prop
  | .namespaceDecl span ident ss =>
    ∃ mid, span.start ≤ mid ∧
      (∀ i ∈ ident, Named source i ∧ span.start ≤ i.span.start ∧ i.span.stop ≤ mid) ∧
      declaredLaid source mid span.stop ss
  | .classDecl span ident _ ms =>
    Solid source span ∧ Named source ident ∧ span.start ≤ ident.span.start ∧
      blocksLaid source ident.span.stop span.stop (ms.filterMap Member.body?)
  | .importDecl span _ => Sealed source span
  | s => Placed source s.span ∧ (Ink source s.span.start ∨ s.IsText source)

/-- The statements, and what is declared in them, lie well between the offsets `lo` and `hi`, one after the
other. Behind a statement that ends with text outside the code comes a tag, or more text. -/
def declaredLaid (source : Text) (lo hi : ℕ) : List Stmt → Prop
  | [] => lo ≤ hi
  | s :: ss => lo ≤ s.span.start ∧ s.DeclaredLaid source ∧ declaredLaid source s.span.stop hi ss ∧
      (Dark source (s.span.stop - 1) ∨ ∀ n ∈ ss.head?, n.IsTag source ∨ n.IsText source)

end

/-- The statement declares nothing that is looked into. -/
def Stmt.isPlain : Stmt → Bool
  | .namespaceDecl .. | .classDecl .. | .importDecl .. => false
  | _ => true

theorem Stmt.declaredLaid_of_isPlain {source : Text} {s : Stmt} (h : s.isPlain = true) :
    s.DeclaredLaid source ↔ Placed source s.span ∧ (Ink source s.span.start ∨ s.IsText source) := by
  cases s with
  | namespaceDecl | classDecl | importDecl => cases h
  | _ => simp only [Stmt.DeclaredLaid]

namespace blocksLaid

variable {source : Text} {lo hi : ℕ} {b : Block} {bs : List Block}

theorem le : ∀ {lo bs}, blocksLaid source lo hi bs → lo ≤ hi
  | _, [], h => h
  | _, _ :: _, h => h.1.trans (h.2.1.solid.lt.le.trans (le h.2.2))

theorem laid : ∀ {lo bs}, blocksLaid source lo hi bs → b ∈ bs → b.Laid source
  | lo, x :: bs, h, hb => by
    rcases List.mem_cons.mp hb with rfl | hb
    · exact h.2.1
    · exact laid h.2.2 hb

theorem bounds : ∀ {lo bs}, blocksLaid source lo hi bs → b ∈ bs → lo ≤ b.place.start ∧ b.place.stop ≤ hi
  | lo, x :: bs, h, hb => by
    have := h.2.1.solid.lt
    rcases List.mem_cons.mp hb with rfl | hb
    · exact ⟨h.1, le h.2.2⟩
    · have := bounds h.2.2 hb
      have := h.1
      omega

theorem ordered : ∀ {lo bs}, blocksLaid source lo hi bs →
    bs.Pairwise fun a b => a.place.stop ≤ b.place.start
  | _, [], _ => .nil
  | _, _ :: _, h => .cons (fun _ hy => (bounds h.2.2 hy).1) (ordered h.2.2)

theorem mono {hi' : ℕ} : ∀ {lo lo' bs}, blocksLaid source lo hi bs → lo' ≤ lo → hi ≤ hi' →
    blocksLaid source lo' hi' bs
  | _, _, [], h, hlo, hhi => hlo.trans (h.trans hhi)
  | _, _, _ :: _, h, hlo, hhi => ⟨hlo.trans h.1, h.2.1, mono h.2.2 le_rfl hhi⟩

end blocksLaid

/-! ### The parts of declarations -/

/-- The places that a declaration is made of: its name, the bodies of its methods, or else the whole. -/
def Stmt.parts : Stmt → List Span
  | .namespaceDecl _ ident _ => ident.toList.map Ident.span
  | .classDecl _ ident _ ms => ident.span :: (ms.filterMap Member.body?).map Block.place
  | s => [s.span]

omit [SourceParser] in
theorem Stmt.parts_of_isPlain {s : Stmt} (h : s.isPlain = true) : s.parts = [s.span] := by
  cases s with
  | namespaceDecl | classDecl | importDecl => cases h
  | _ => rfl

/-- All parts of the one declaration lie in front of those of the other. -/
def Stmt.Before (s s' : Stmt) : Prop := ∀ x ∈ s.parts, ∀ y ∈ s'.parts, x.stop ≤ y.start

theorem parts_within_class {source : Text} {span : Span} {ident : Ident} {es : List Expr} {ms : List Member}
    (h : (Stmt.classDecl span ident es ms).DeclaredLaid source) :
    ∀ x ∈ (Stmt.classDecl span ident es ms).parts, span.start ≤ x.start ∧ x.stop ≤ span.stop := by
  rw [Stmt.DeclaredLaid] at h
  obtain ⟨-, hi, hlo, hbs⟩ := h
  have hlt := hi.lt
  intro x hx
  rcases List.mem_cons.mp hx with rfl | hx
  · exact ⟨hlo, hbs.le⟩
  · obtain ⟨b, hb, rfl⟩ := List.mem_map.mp hx
    have := hbs.bounds hb
    omega

/-- What is known of the statements declared between the offsets `lo` and `hi`. -/
structure DeclaredIn (source : Text) (lo hi : ℕ) (ss : List Stmt) : Prop where
  le : lo ≤ hi
  laid : ∀ s ∈ ss, s.DeclaredLaid source
  within : ∀ s ∈ ss, ∀ x ∈ s.parts, lo ≤ x.start ∧ x.stop ≤ hi
  ordered : ss.Pairwise Stmt.Before

namespace DeclaredIn

variable {source : Text} {lo mid hi : ℕ} {ss ss' : List Stmt}

theorem append (h : DeclaredIn source lo mid ss) (h' : DeclaredIn source mid hi ss') :
    DeclaredIn source lo hi (ss ++ ss') where
  le := h.le.trans h'.le
  laid s hs := (List.mem_append.mp hs).elim (h.laid s) (h'.laid s)
  within s hs x hx := by
    rcases List.mem_append.mp hs with hs | hs
    · exact ⟨(h.within s hs x hx).1, (h.within s hs x hx).2.trans h'.le⟩
    · exact ⟨h.le.trans (h'.within s hs x hx).1, (h'.within s hs x hx).2⟩
  ordered := List.pairwise_append.mpr ⟨h.ordered, h'.ordered, fun s hs s' hs' x hx y hy =>
    (h.within s hs x hx).2.trans (h'.within s' hs' y hy).1⟩

theorem single {s : Stmt} (hs : s.DeclaredLaid source) (hle : lo ≤ hi)
    (h : ∀ x ∈ s.parts, lo ≤ x.start ∧ x.stop ≤ hi) : DeclaredIn source lo hi [s] :=
  ⟨hle, by simpa using hs, by simpa using h, List.pairwise_singleton _ _⟩

end DeclaredIn

mutual

theorem Stmt.declaredIn {source : Text} : ∀ s : Stmt, s.DeclaredLaid source →
    DeclaredIn source s.span.start s.span.stop s.declared
  | .namespaceDecl span ident ss, h => by
    have h' := h
    rw [Stmt.DeclaredLaid] at h
    obtain ⟨mid, hmid, hident, hss⟩ := h
    rw [Stmt.declared]
    refine (DeclaredIn.single h' hmid fun x hx => ?_).append (declared_declaredIn ss hss)
    obtain ⟨i, hi, rfl⟩ := List.mem_map.mp hx
    exact (hident i (Option.mem_toList.mp hi)).2
  | .classDecl span ident es ms, h => by
    simp only [Stmt.declared]
    refine .single h ?_ (parts_within_class h)
    rw [Stmt.DeclaredLaid] at h
    exact h.1.lt.le
  | .importDecl span imports, h => by
    simp only [Stmt.declared]
    refine .single h ?_ (by simp [Stmt.parts])
    rw [Stmt.DeclaredLaid] at h
    exact h.lt.le
  | .expression .., h | .block .., h | .control .., h | .functionDecl .., h | .other .., h => by
    simp only [Stmt.declared]
    refine .single h ?_ (by simp [Stmt.parts])
    exact ((Stmt.declaredLaid_of_isPlain rfl).mp h).1.lt.le

/-- **The declarations of a file that lies well come one after the other.** -/
theorem declared_declaredIn {source : Text} : ∀ (ss : List Stmt) {lo hi : ℕ}, declaredLaid source lo hi ss →
    DeclaredIn source lo hi (declared ss)
  | [], lo, hi, h => by
    rw [declaredLaid] at h
    exact ⟨h, by simp [declared], by simp [declared], by simp [declared]⟩
  | s :: ss, lo, hi, h => by
    rw [declaredLaid] at h
    rw [declared]
    have hs := Stmt.declaredIn s h.2.1
    refine DeclaredIn.append ?_ (declared_declaredIn ss h.2.2.1)
    exact { hs with
      le := h.1.trans hs.le
      within := fun s hs' x hx => ⟨h.1.trans (hs.within s hs' x hx).1, (hs.within s hs' x hx).2⟩ }

end

/-! ### What stands in front of an import -/

section Guard

variable {source : Text} {hi : ℕ} {span : Span} {imports : Option (List Import)} {s : Stmt}

/-- Between a statement and an import in what follows it there is a dark byte, unless the statement ends with
one. -/
theorem dark_before_import : ∀ {ss : List Stmt} {x : Stmt} {lo : ℕ}, declaredLaid source lo hi (x :: ss) →
    0 < x.span.stop → .importDecl span imports ∈ declared ss →
    ∃ k, x.span.stop ≤ k + 1 ∧ k < span.start ∧ Dark source k
  | ss, x, lo, h, hpos, hi => by
    rw [declaredLaid] at h
    obtain ⟨-, -, htail, hend⟩ := h
    have hle := ((declared_declaredIn ss htail).within _ hi span (List.mem_singleton.mpr rfl)).1
    rcases hend with hdark | hnext
    · exact ⟨x.span.stop - 1, by omega, by omega, hdark⟩
    · match ss, htail, hnext, hi with
      | n :: ss, htail, hnext, hi =>
        have hn := htail
        rw [declaredLaid] at hn
        have hns : Stmt.importDecl span imports ∈ declared ss := by
          rw [declared] at hi
          rcases List.mem_append.mp hi with hi | hi
          · rcases hnext n rfl with h | h <;> cases n <;> first | exact h.elim | simp [Stmt.declared] at hi
          · exact hi
        have hbehind := ((declared_declaredIn ss hn.2.2.1).within _ hns span (List.mem_singleton.mpr rfl)).1
        rcases hnext n rfl with htag | htext
        · have := htag.solid.lt
          exact ⟨n.span.stop - 1, by omega, by omega, htag.solid.last⟩
        · have := htext.placed.lt
          obtain ⟨k, h₁, h₂, hk⟩ := dark_before_import htail (by omega) hns
          exact ⟨k, by omega, h₂, hk⟩

mutual

theorem Stmt.guard_import : ∀ {x : Stmt}, x.DeclaredLaid source → s ∈ x.declared → s.isPlain = true →
    .importDecl span imports ∈ x.declared → s.span.stop ≤ span.start →
    ∃ k, s.span.stop ≤ k + 1 ∧ k < span.start ∧ Dark source k
  | .namespaceDecl _ _ ss, hx, hs, hp, hi, hle => by
    rw [Stmt.DeclaredLaid] at hx
    obtain ⟨mid, -, -, hss⟩ := hx
    rw [Stmt.declared, List.mem_cons] at hs hi
    rcases hs with rfl | hs
    · cases hp
    rcases hi with hi | hi
    · cases hi
    exact guard_import hss hs hp hi hle
  | .expression .., _, _, _, hi, _ | .block .., _, _, _, hi, _ | .control .., _, _, _, hi, _
  | .classDecl .., _, _, _, hi, _ | .functionDecl .., _, _, _, hi, _ | .other .., _, _, _, hi, _ => by
    simp [Stmt.declared] at hi
  | .importDecl .., _, hs, hp, _, _ => by
    simp only [Stmt.declared, List.mem_singleton] at hs
    rw [hs] at hp
    cases hp

/-- **Between a plain statement and an import behind it there is a dark byte**, unless the statement ends with
one. -/
theorem guard_import : ∀ {ss : List Stmt} {lo hi : ℕ}, declaredLaid source lo hi ss → s ∈ declared ss →
    s.isPlain = true → .importDecl span imports ∈ declared ss → s.span.stop ≤ span.start →
    ∃ k, s.span.stop ≤ k + 1 ∧ k < span.start ∧ Dark source k
  | [], _, _, _, hs, _, _, _ => by simp [declared] at hs
  | x :: ss, lo, hi, h, hs, hp, him, hle => by
    have h' := h
    rw [declaredLaid] at h
    obtain ⟨-, hx, htail, -⟩ := h
    have hplaced := ((Stmt.declaredLaid_of_isPlain hp).mp ((declared_declaredIn _ h').laid s hs)).1.lt
    have hwithin := (Stmt.declaredIn x hx).within
    rw [declared] at hs him
    rcases List.mem_append.mp hs with hs | hs
    · rcases List.mem_append.mp him with him | him
      · exact Stmt.guard_import hx hs hp him hle
      · have hsx := (hwithin s hs s.span (by simp [Stmt.parts_of_isPlain hp])).2
        obtain ⟨k, h₁, h₂, hk⟩ := dark_before_import h' (by omega) him
        exact ⟨k, by omega, h₂, hk⟩
    · rcases List.mem_append.mp him with him | him
      · -- The import would lie in front of the statement.
        have hix := (hwithin _ him span (List.mem_singleton.mpr rfl)).2
        have hsx := ((declared_declaredIn ss htail).within s hs s.span (by simp [Stmt.parts_of_isPlain hp])).1
        have himp := (Stmt.declaredIn x hx).laid _ him
        rw [Stmt.DeclaredLaid] at himp
        have := himp.lt
        omega
      · exact guard_import htail hs hp him hle

end

end Guard

/-! ### Parsers -/

/-- A parser whose trees lie well in their sources. -/
class LawfulParser : Prop where
  laid {source : Text} {p : Program} : source.isValid = true → parse? source = some p →
    declaredLaid source 0 source.length p

end Tokens

end Polyfill.Source
