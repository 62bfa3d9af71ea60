import Polyfill.Notice.Mention
import Polyfill.Proofs.Name.Proper
import Polyfill.Proofs.Text.Search

/-! # Mentions and the scan for them

A name of an entry is mentioned where it stands in a text with the right neighbours. The scan looks at the neighbours of
its hits only, and an occurrence that begins inside a hit is no hit. So a mention is missed only where the name begins
again inside itself, behind a part that a mention may follow. The byte in front of a mention is no byte of an identifier,
so in a name it is a separator; and behind a separator that follows an identifier no namespace may begin. A class may.
But the simple name of a class holds no separator, and so nothing is missed.

* `BeginsBehind`, `EndsBefore`: the neighbours a mention may have.
* `Token.MentionedIn`: the token stands somewhere in the text with such neighbours.
* `Token.NeverHidden`: the scan cannot miss a mention of the token.
* `Restarts`: a class name that begins again behind one of its separators.
* `mentionedIn_iff`: the scan finds exactly the mentions, unless a class name is one of these.
* `mention_hidden`: it can miss a mention of a class name that is one. -/

namespace Polyfill.Notice

/-! ### The neighbours of a mention -/

/-- The operators between a receiver and its member, `->` and `::`. -/
def memberOperators : List Text := [[0x2D, 0x3E], [0x3A, 0x3A]]

/-- **A name of the given kind may begin behind the text**: no identifier and no member operator ends there, and, for a
namespace, no separator that follows an identifier. -/
structure BeginsBehind (kind : TokenKind) (before : Text) : Prop where
  ident : ∀ b, [b] <:+ before → isIdentByte b = false
  member : ∀ op ∈ memberOperators, ¬ op <:+ before
  below : kind = .namespaceName → ∀ b, [b, Name.separator] <:+ before → isIdentByte b = false

/-- **A name of the given kind may end in front of the text**: neither an identifier nor a member operator goes on there,
nor, for a class, a separator. -/
structure EndsBefore (kind : TokenKind) (after : Text) : Prop where
  ident : ∀ b, [b] <+: after → isIdentByte b = false
  member : ∀ op ∈ memberOperators, ¬ op <+: after
  above : kind = .className → ¬ [Name.separator] <+: after

theorem startsWithMemberOperator_iff {t : Text} :
    startsWithMemberOperator t = true ↔ ∃ op ∈ memberOperators, op <+: t := by
  unfold startsWithMemberOperator
  split
  · simp [memberOperators]
  · simp [memberOperators]
  · next h₁ h₂ =>
    simp only [Bool.false_eq_true, memberOperators, List.mem_cons, List.not_mem_nil, or_false, exists_eq_or_imp,
      exists_eq_left, false_iff, not_or]
    constructor
    · rintro ⟨rest, rfl⟩
      exact h₁ rest rfl
    · rintro ⟨rest, rfl⟩
      exact h₂ rest rfl

theorem endsInMemberOperator_iff {t : Text} :
    endsInMemberOperator t.reverse = true ↔ ∃ op ∈ memberOperators, op <:+ t := by
  have hrev : ∀ op : Text, op <:+ t ↔ op.reverse <+: t.reverse := fun op => List.reverse_prefix.symm
  simp only [hrev]
  unfold endsInMemberOperator
  split
  · next h => simp [memberOperators, h]
  · next h => simp [memberOperators, h]
  · next h₁ h₂ =>
    simp only [Bool.false_eq_true, memberOperators, List.mem_cons, List.not_mem_nil, or_false, exists_eq_or_imp,
      exists_eq_left, false_iff, not_or]
    constructor
    · rintro ⟨rest, h⟩
      exact h₁ rest h.symm
    · rintro ⟨rest, h⟩
      exact h₂ rest h.symm

theorem endsBefore_nil (kind : TokenKind) : EndsBefore kind [] := ⟨by simp, by simp [memberOperators], by simp⟩

theorem beginsBehind_nil (kind : TokenKind) : BeginsBehind kind [] := ⟨by simp, by simp [memberOperators], by simp⟩

theorem endsBefore_cons_iff {kind : TokenKind} {b : UInt8} {after : Text} : EndsBefore kind (b :: after) ↔
    isIdentByte b = false ∧ (∀ op ∈ memberOperators, ¬ op <+: b :: after) ∧
      (kind = .className → b ≠ Name.separator) := by
  have hhead : ∀ c : UInt8, [c] <+: b :: after ↔ b = c := by simp [List.cons_prefix_cons, eq_comm]
  constructor
  · intro h
    exact ⟨h.ident b ((hhead b).mpr rfl), h.member, fun hkind hb => h.above hkind ((hhead _).mpr hb)⟩
  · rintro ⟨hident, hmember, habove⟩
    exact ⟨fun c hc => (hhead c).mp hc ▸ hident, hmember, fun hkind hc => habove hkind ((hhead _).mp hc)⟩

theorem singleton_suffix_concat_iff {before : Text} {b c : UInt8} : [c] <:+ before ++ [b] ↔ b = c := by
  rw [← List.reverse_prefix, List.reverse_append]
  simp [List.cons_prefix_cons, eq_comm]

theorem startsInIdent_reverse_iff {t : Text} :
    startsInIdent t.reverse = true ↔ ∃ b, [b] <:+ t ∧ isIdentByte b = true := by
  rcases List.eq_nil_or_concat t with rfl | ⟨t, b, rfl⟩
  · simp [startsInIdent]
  · rw [List.concat_eq_append, List.reverse_append]
    simp only [singleton_suffix_concat_iff, exists_eq_left', startsInIdent, List.reverse_singleton, List.singleton_append]

theorem beginsBehind_concat_iff {kind : TokenKind} {before : Text} {b : UInt8} : BeginsBehind kind (before ++ [b]) ↔
    isIdentByte b = false ∧ (∀ op ∈ memberOperators, ¬ op <:+ before ++ [b]) ∧
      (kind = .namespaceName → b = Name.separator → startsInIdent before.reverse = false) := by
  have hpair : ∀ c, [c, Name.separator] <:+ before ++ [b] ↔ b = Name.separator ∧ [c] <:+ before := by
    intro c
    have hrev : [c] <:+ before ↔ [c] <+: before.reverse := List.reverse_prefix.symm
    rw [← List.reverse_prefix, List.reverse_append, hrev]
    simp [List.cons_prefix_cons, eq_comm]
  constructor
  · intro h
    refine ⟨h.ident b (singleton_suffix_concat_iff.mpr rfl), h.member, fun hkind hb => ?_⟩
    rw [Bool.eq_false_iff, ne_eq, startsInIdent_reverse_iff]
    rintro ⟨c, hc, hident⟩
    rw [h.below hkind c ((hpair c).mpr ⟨hb, hc⟩)] at hident
    cases hident
  · rintro ⟨hident, hmember, hbelow⟩
    refine ⟨fun c hc => singleton_suffix_concat_iff.mp hc ▸ hident, hmember, fun hkind c hc => ?_⟩
    obtain ⟨hb, hc⟩ := (hpair c).mp hc
    have hstart := hbelow hkind hb
    rw [Bool.eq_false_iff, ne_eq, startsInIdent_reverse_iff] at hstart
    by_contra hident
    exact hstart ⟨c, hc, by simpa using hident⟩

theorem closesName_iff {kind : TokenKind} {after : Text} : closesName kind after = true ↔ EndsBefore kind after := by
  cases after with
  | nil => exact iff_of_true rfl (endsBefore_nil kind)
  | cons b after =>
    rw [endsBefore_cons_iff]
    unfold closesName
    have hop := startsWithMemberOperator_iff (t := b :: after)
    cases kind <;> grind

theorem opensName_iff {kind : TokenKind} {before : Text} :
    opensName kind before.reverse = true ↔ BeginsBehind kind before := by
  rcases List.eq_nil_or_concat before with rfl | ⟨before, b, rfl⟩
  · exact iff_of_true rfl (beginsBehind_nil kind)
  · rw [List.concat_eq_append, beginsBehind_concat_iff]
    have hop := endsInMemberOperator_iff (t := before ++ [b])
    rw [List.reverse_append] at hop ⊢
    unfold opensName
    cases kind <;> grind

/-! ### Tokens -/

namespace Token

/-- **The token is mentioned in the text**: it stands somewhere between neighbours that a mention may have. -/
def MentionedIn (k : Token) (text : Text) : Prop :=
  ∃ before after, text = before ++ (k.text ++ after) ∧ BeginsBehind k.kind before ∧ EndsBefore k.kind after

/-- **The scan cannot miss a mention of the token**: where the token begins again inside itself, no mention begins. -/
def NeverHidden (k : Token) : Prop :=
  ∀ u v, u ≠ [] → v ≠ [] → k.text = u ++ v → v <+: k.text → ∀ before, ¬ BeginsBehind k.kind (before ++ u)

theorem standsBetween_iff {k : Token} {before after : Text} :
    k.standsBetween before after = true ↔ BeginsBehind k.kind before ∧ EndsBefore k.kind after := by
  rw [standsBetween, Bool.and_eq_true, opensName_iff, closesName_iff]

theorem mentionedIn_of_standsIn {k : Token} {text : Text} (h : k.standsIn text = true) : k.MentionedIn text := by
  rw [standsIn, List.any_eq_true] at h
  obtain ⟨i, hi, hstands⟩ := h
  obtain ⟨after, hafter⟩ := Text.prefix_drop_of_mem_occurrences hi
  have hrest : text.drop (i + k.text.length) = after := by
    rw [← List.drop_drop, ← hafter, List.drop_left]
  obtain ⟨hbegin, hend⟩ := standsBetween_iff.mp hstands
  refine ⟨text.take i, after, ?_, hbegin, hrest ▸ hend⟩
  rw [hafter, List.take_append_drop]

/-- **The scan finds exactly the mentions of a token that is never hidden.** -/
theorem standsIn_iff {k : Token} (hne : k.text ≠ []) (hclear : k.NeverHidden) {text : Text} :
    k.standsIn text = true ↔ k.MentionedIn text := by
  refine ⟨mentionedIn_of_standsIn, ?_⟩
  rintro ⟨before, after, rfl, hbegin, hend⟩
  have hplace : k.text <+: (before ++ (k.text ++ after)).drop before.length := by
    rw [List.drop_left]
    exact List.prefix_append ..
  rw [standsIn, List.any_eq_true]
  rcases Text.mem_occurrences_or_overlap hne hplace with hhit | ⟨u, v, hu, hv, heq, hagain, hfront⟩
  · refine ⟨before.length, hhit, standsBetween_iff.mpr ?_⟩
    rw [List.take_left, ← List.drop_drop, List.drop_left, List.drop_left]
    exact ⟨hbegin, hend⟩
  · rw [List.take_left] at hfront
    obtain ⟨front, rfl⟩ := hfront
    exact absurd hbegin (hclear u v hu hv heq hagain front)

end Token

/-! ### Names of the language -/

/-- The name begins again behind one of its separators. -/
def Restarts (t : Text) : Prop := ∃ v, v ≠ [] ∧ Name.separator :: v <:+ t ∧ v <+: t

theorem not_restarts_of_not_mem {t : Text} (h : Name.separator ∉ t) : ¬ Restarts t := by
  rintro ⟨v, -, hsuffix, -⟩
  exact h (hsuffix.subset (List.mem_cons_self ..))

theorem eq_concat_separator {kind : TokenKind} {u v before : Text} (hname : Name.Proper (u ++ v)) (hu : u ≠ [])
    (h : BeginsBehind kind (before ++ u)) : ∃ w, u = w ++ [Name.separator] := by
  rcases List.eq_nil_or_concat u with rfl | ⟨w, b, rfl⟩
  · exact absurd rfl hu
  · rw [List.concat_eq_append] at hname h ⊢
    have hb : isIdentByte b = false := h.ident b ⟨before ++ w, by simp⟩
    rcases hname.ident_or_separator (by simp : b ∈ w ++ [b] ++ v) with hident | rfl
    · rw [hb] at hident
      cases hident
    · exact ⟨w, rfl⟩

theorem neverHidden_namespace {t : Text} (ht : Name.Proper t) : Token.NeverHidden ⟨t, .namespaceName⟩ := by
  intro u v hu _ heq _ before hbegin
  obtain rfl : t = u ++ v := heq
  obtain ⟨w, rfl⟩ := eq_concat_separator ht hu hbegin
  rw [List.append_assoc] at ht
  obtain ⟨b, ⟨front, hfront⟩, hident⟩ := startsInIdent_reverse_iff.mp ht.around_separator.1
  have hout := hbegin.below rfl b ⟨before ++ front, by simp [← hfront]⟩
  rw [hident] at hout
  cases hout

theorem neverHidden_class {t : Text} (ht : Name.Proper t) (hr : ¬ Restarts t) :
    Token.NeverHidden ⟨t, .className⟩ := by
  intro u v hu hv heq hagain before hbegin
  obtain rfl : t = u ++ v := heq
  obtain ⟨w, rfl⟩ := eq_concat_separator ht hu hbegin
  exact hr ⟨v, hv, ⟨w, by simp⟩, hagain⟩

/-- **A class name that does begin again behind one of its separators can be hidden.** -/
theorem exists_hidden_of_restarts {t : Text} (ht : Name.Proper t) (hr : Restarts t) :
    ∃ text, (⟨t, .className⟩ : Token).MentionedIn text ∧ (⟨t, .className⟩ : Token).standsIn text = false := by
  obtain ⟨v, hv, ⟨u, hu⟩, w, hw⟩ := hr
  -- two copies of the name that overlap in `v`
  refine ⟨u ++ Name.separator :: t, ⟨u ++ [Name.separator], [], by simp, ?_, endsBefore_nil _⟩, ?_⟩
  · refine beginsBehind_concat_iff.mpr ⟨Name.isIdentByte_separator, fun op hop hsuffix => ?_, by simp⟩
    obtain ⟨front, hfront⟩ := hsuffix
    have hlast := congrArg List.getLast? hfront
    simp only [memberOperators, List.mem_cons, List.not_mem_nil, or_false] at hop
    rcases hop with rfl | rfl <;> simp [Name.separator] at hlast
  · have htext : u ++ Name.separator :: t = t ++ w := by
      conv_lhs => rw [← hw, ← List.cons_append, ← List.append_assoc, hu]
    have hlen := congrArg List.length htext
    have hlenu := congrArg List.length hu
    have hvpos := List.length_pos_iff.mpr hv
    simp only [List.length_append, List.length_cons] at hlen hlenu
    rw [Token.standsIn, List.any_eq_false]
    intro i hi hstands
    rw [htext] at hi hstands
    have hfirst : i = 0 ∨ t.length ≤ i := Text.eq_zero_or_le_of_mem_occurrences (List.prefix_append t w) hi
    rcases hfirst with rfl | hle
    · -- the first copy goes on as a longer name
      obtain ⟨-, hend⟩ := Token.standsBetween_iff.mp hstands
      rw [Nat.zero_add, List.drop_left] at hend
      cases w with
      | nil =>
        rw [List.length_nil] at hlen
        omega
      | cons b w =>
        obtain ⟨hident, -, hsep⟩ := endsBefore_cons_iff.mp hend
        rcases ht.ident_or_separator (by rw [← hw]; simp : b ∈ t) with h | h
        · rw [hident] at h
          cases h
        · exact hsep rfl h
    · -- behind the first copy there is no room for another one
      have hroom : t.length ≤ ((t ++ w).drop i).length := (Text.prefix_drop_of_mem_occurrences hi).length_le
      rw [List.length_drop, List.length_append] at hroom
      omega

/-! ### The names of an entry -/

/-- The names of an entry that can be mentioned. -/
def namesOf (e : Mapping.Entry) : List Token :=
  [⟨e.targetNamespace, .namespaceName⟩, ⟨e.targetClass, .className⟩,
    ⟨e.sourceNamespace, .namespaceName⟩, ⟨e.sourceClass, .className⟩]

theorem mem_addToken {ks : List Token} {k k' : Token} :
    k' ∈ addToken ks k ↔ k' ∈ ks ∨ k' = k ∧ k.text ≠ [] := by
  rw [addToken]
  split
  · next h =>
    rw [Bool.or_eq_true, List.isEmpty_iff, List.contains_iff_mem] at h
    constructor
    · exact Or.inl
    · rintro (hmem | ⟨rfl, hne⟩)
      · exact hmem
      · exact h.resolve_left hne
  · next h =>
    rw [Bool.or_eq_true, List.isEmpty_iff, not_or] at h
    rw [List.mem_append, List.mem_singleton, and_iff_left h.1]

theorem mem_foldl_addToken {ks acc : List Token} {k : Token} :
    k ∈ ks.foldl addToken acc ↔ k ∈ acc ∨ k ∈ ks ∧ k.text ≠ [] := by
  induction ks generalizing acc with
  | nil => simp
  | cons k' ks ih =>
    rw [List.foldl_cons, ih, mem_addToken, List.mem_cons]
    constructor
    · rintro ((h | ⟨rfl, hne⟩) | ⟨h, hne⟩)
      · exact Or.inl h
      · exact Or.inr ⟨Or.inl rfl, hne⟩
      · exact Or.inr ⟨Or.inr h, hne⟩
    · rintro (h | ⟨rfl | h, hne⟩)
      · exact Or.inl (Or.inl h)
      · exact Or.inl (Or.inr ⟨rfl, hne⟩)
      · exact Or.inr ⟨h, hne⟩

theorem mem_tokensOf {e : Mapping.Entry} {k : Token} : k ∈ tokensOf e ↔ k ∈ namesOf e ∧ k.text ≠ [] := by
  rw [tokensOf, mem_foldl_addToken, or_iff_right List.not_mem_nil]
  rfl

/-- **The scan finds exactly the mentions of an entry's names.** Let the names of an entry be names of the language or
empty, and let its new class name not begin again behind one of its separators, as no simple name does. Then one of its
tokens is found in a text if and only if one of its names that is not empty is mentioned there. For a class name that
does begin again there is a text in which it is mentioned and not found. -/
theorem mentionedIn_iff {e : Mapping.Entry} (hnames : ∀ k ∈ namesOf e, k.text = [] ∨ Name.Proper k.text)
    (hclass : ¬ Restarts e.targetClass) (text : Text) :
    (mentionedIn (tokensOf e) text = true ↔ ∃ k ∈ namesOf e, k.text ≠ [] ∧ k.MentionedIn text) ∧
    ∀ name, Name.Proper name → Restarts name → ∃ missed, (⟨name, .className⟩ : Token).MentionedIn missed ∧
      (⟨name, .className⟩ : Token).standsIn missed = false := by
  refine ⟨?_, fun name => exists_hidden_of_restarts⟩
  have hclear : ∀ k ∈ namesOf e, k.text ≠ [] → k.NeverHidden := by
    intro k hk hne
    have hproper : Name.Proper k.text := (hnames k hk).resolve_left hne
    simp only [namesOf, List.mem_cons, List.not_mem_nil, or_false] at hk
    rcases hk with rfl | rfl | rfl | rfl
    · exact neverHidden_namespace hproper
    · exact neverHidden_class hproper hclass
    · exact neverHidden_namespace hproper
    · exact neverHidden_class hproper (not_restarts_of_not_mem (Name.separator_not_mem_shortName _))
  rw [mentionedIn, List.any_eq_true]
  constructor
  · rintro ⟨k, hk, hstands⟩
    obtain ⟨hname, hne⟩ := mem_tokensOf.mp hk
    exact ⟨k, hname, hne, Token.mentionedIn_of_standsIn hstands⟩
  · rintro ⟨k, hname, hne, hmentioned⟩
    exact ⟨k, mem_tokensOf.mpr ⟨hname, hne⟩, (Token.standsIn_iff hne (hclear k hname hne)).mpr hmentioned⟩

/-- A text in which the first place of the new namespace is no mention, and the second one is. -/
theorem mentionedIn_iff_sample :
    let e : Mapping.Entry := ⟨.ofString "Old\\Foo", .ofString "New\\Foo", .ofString "Bar", .ofString "a", .ofString "b"⟩
    let text := Text.ofString "Vendor\\New\\Foo\\Bar, not New\\Foo"
    (∀ k ∈ namesOf e, k.text = [] ∨ Name.Proper k.text) ∧ ¬ Restarts e.targetClass ∧
      ∃ k ∈ namesOf e, k.text ≠ [] ∧ k.MentionedIn text := by
  intro e text
  have hnames : ∀ k ∈ namesOf e, k.text = [] ∨ Name.Proper k.text := by decide +kernel
  have hclass : ¬ Restarts e.targetClass := not_restarts_of_not_mem (by decide +kernel)
  exact ⟨hnames, hclass, (mentionedIn_iff hnames hclass text).1.mp (by decide +kernel)⟩

/-- **A mention can be missed** though all names of the entry are names of the language: the new class name `A\A` stands
at the end of the text, behind a separator, and begins inside the hit in front of it. -/
theorem mention_hidden :
    let e : Mapping.Entry := ⟨.ofString "Old\\Foo", .ofString "New", .ofString "A\\A", .ofString "a", .ofString "b"⟩
    let text := Text.ofString "A\\A\\A"
    (∀ k ∈ namesOf e, Name.Proper k.text) ∧ (∃ k ∈ namesOf e, k.text ≠ [] ∧ k.MentionedIn text) ∧
      mentionedIn (tokensOf e) text = false := by
  intro e text
  refine ⟨by decide +kernel, ⟨⟨e.targetClass, .className⟩, by decide +kernel, by decide +kernel,
    .ofString "A\\", [], by decide +kernel, ?_, endsBefore_nil _⟩, by decide +kernel⟩
  exact opensName_iff.mp (by decide +kernel)

end Polyfill.Notice
