import Mathlib.Data.List.DropRight
import Polyfill.Proofs.Notice.Mentions

/-! # Mentions inside a member reference

A message that names a class only as the receiver or the member of an access says nothing about the class itself, and
the neighbours of a mention are chosen so that such a name is none. They are the neighbours of the name, however, and not
those of the whole qualified name that it is a part of. So an operator next to the qualified name is seen only where the
name of the entry reaches to that end of it. Behind a separator of a member, and a namespace also in front of a separator
of a receiver, the name is mentioned all the same.

* `Run`: a longest row of bytes of names, with what stands around it.
* `MembersOnly`: the names of an entry stand in such a text only in names next to a member operator.
* `Token.InLongerName`: the token is mentioned as a part of a longer qualified name.
* `mentioned_in_members_iff`: these are the mentions in a text with member references only.
* `member_mentioned`: there are such mentions. -/

namespace Polyfill.Notice

/-- A byte that a qualified name is made of. -/
def isNameByte (b : UInt8) : Bool := isIdentByte b || b == Name.separator

theorem isNameByte_iff {b : UInt8} : isNameByte b = true ↔ isIdentByte b = true ∨ b = Name.separator := by
  rw [isNameByte, Bool.or_eq_true, beq_iff_eq]

/-- **A longest row of bytes of names** between what stands in front of it and behind it. -/
structure Run (before run after : Text) : Prop where
  inside : ∀ b ∈ run, isNameByte b = true
  front : ∀ b ∈ before.getLast?, isNameByte b = false
  behind : ∀ b ∈ after.head?, isNameByte b = false

instance (before run after : Text) : Decidable (Run before run after) :=
  decidable_of_iff ((run.all isNameByte && before.getLast?.all (!isNameByte ·) &&
      after.head?.all (!isNameByte ·)) = true) <| by
    simp only [Bool.and_eq_true, List.all_eq_true, Option.all_eq_true, Bool.not_eq_true', and_assoc]
    exact ⟨fun ⟨hin, hfront, hbehind⟩ => ⟨hin, hfront, hbehind⟩, fun h => ⟨h.inside, h.front, h.behind⟩⟩

/-- A member operator stands right in front of a name or right behind it. -/
def Linked (before after : Text) : Prop := ∃ op ∈ memberOperators, op <:+ before ∨ op <+: after

instance (before after : Text) : Decidable (Linked before after) :=
  inferInstanceAs (Decidable (∃ op ∈ memberOperators, op <:+ before ∨ op <+: after))

/-- **The names stand in member references only**: a row of bytes of names that contains one of them is next to a member
operator. -/
def MembersOnly (ks : List Token) (text : Text) : Prop :=
  ∀ before run after, text = before ++ (run ++ after) → Run before run after →
    ∀ k ∈ ks, k.text ≠ [] → k.text <:+: run → Linked before after

theorem membersOnly_iff {ks : List Token} {text : Text} : MembersOnly ks text ↔
    ∀ i ≤ text.length, ∀ n ≤ text.length, Run (text.take i) ((text.drop i).take n) ((text.drop i).drop n) →
      ∀ k ∈ ks, k.text ≠ [] → k.text <:+: (text.drop i).take n → Linked (text.take i) ((text.drop i).drop n) := by
  constructor
  · intro h i _ n _
    exact h _ _ _ (by rw [List.take_append_drop, List.take_append_drop])
  · rintro h before run after rfl
    have := h before.length (by simp) run.length (by simp; omega)
    rwa [List.take_left, List.drop_left, List.take_left, List.drop_left] at this

instance (ks : List Token) (text : Text) : Decidable (MembersOnly ks text) :=
  decidable_of_iff _ membersOnly_iff.symm

/-! ### The row around a name -/

theorem false_of_mem_head?_dropWhile {p : UInt8 → Bool} {t : Text} {b : UInt8} (hb : b ∈ (t.dropWhile p).head?) :
    p b = false := by
  have hnot := List.head?_dropWhile_not p t
  rwa [Option.mem_def.mp hb] at hnot

theorem exists_run {before name after : Text} (hname : ∀ b ∈ name, isNameByte b = true) :
    ∃ front p s behind, before = front ++ p ∧ after = s ++ behind ∧ Run front (p ++ (name ++ s)) behind := by
  refine ⟨before.rdropWhile isNameByte, before.rtakeWhile isNameByte, after.takeWhile isNameByte,
    after.dropWhile isNameByte, ?_, List.takeWhile_append_dropWhile.symm, ?_, ?_, ?_⟩
  · rw [List.rdropWhile, List.rtakeWhile, ← List.reverse_append, List.takeWhile_append_dropWhile, List.reverse_reverse]
  · intro b hb
    rcases List.mem_append.mp hb with hb | hb
    · exact List.mem_rtakeWhile_imp hb
    · rcases List.mem_append.mp hb with hb | hb
      · exact hname b hb
      · exact List.mem_takeWhile_imp hb
  · intro b hb
    rw [List.rdropWhile, List.getLast?_reverse] at hb
    exact false_of_mem_head?_dropWhile hb
  · exact fun b hb => false_of_mem_head?_dropWhile hb

/-- **The token is mentioned as a part of a longer qualified name**: behind a separator of it, or, a namespace, in front
of one. -/
def Token.InLongerName (k : Token) (text : Text) : Prop :=
  ∃ before p s after, text = before ++ (p ++ (k.text ++ s) ++ after) ∧ Run before (p ++ (k.text ++ s)) after ∧
    BeginsBehind k.kind (before ++ p) ∧ EndsBefore k.kind (s ++ after) ∧
    ([Name.separator] <:+ p ∨ k.kind = .namespaceName ∧ [Name.separator] <+: s)

theorem Token.InLongerName.mentionedIn {k : Token} {text : Text} (h : k.InLongerName text) : k.MentionedIn text := by
  obtain ⟨before, p, s, after, rfl, -, hbegin, hend, -⟩ := h
  exact ⟨before ++ p, s ++ after, by simp, hbegin, hend⟩

theorem separator_suffix {kind : TokenKind} {before p : Text} (hp : p ≠ []) (hin : ∀ b ∈ p, isNameByte b = true)
    (h : BeginsBehind kind (before ++ p)) : [Name.separator] <:+ p := by
  rcases List.eq_nil_or_concat p with rfl | ⟨p, b, rfl⟩
  · exact absurd rfl hp
  · rw [List.concat_eq_append] at hin h ⊢
    have hb : isIdentByte b = false := h.ident b ⟨before ++ p, by simp⟩
    rcases isNameByte_iff.mp (hin b (by simp)) with hident | rfl
    · rw [hb] at hident
      cases hident
    · exact List.suffix_append ..

theorem separator_isPrefix {kind : TokenKind} {s after : Text} (hs : s ≠ []) (hin : ∀ b ∈ s, isNameByte b = true)
    (h : EndsBefore kind (s ++ after)) : kind = .namespaceName ∧ [Name.separator] <+: s := by
  cases s with
  | nil => exact absurd rfl hs
  | cons b s =>
    obtain ⟨hb, -, habove⟩ := endsBefore_cons_iff.mp h
    rcases isNameByte_iff.mp (hin b (List.mem_cons_self ..)) with hident | rfl
    · rw [hb] at hident
      cases hident
    · refine ⟨?_, List.prefix_append [_] s⟩
      cases kind with
      | namespaceName => rfl
      | className => exact absurd rfl (habove rfl)

/-- **A mention in a text with member references only is a part of a longer name.** -/
theorem Token.MentionedIn.inLongerName {k : Token} {ks : List Token} {text : Text} (hk : k ∈ ks)
    (hname : Name.Proper k.text) (hmembers : MembersOnly ks text) (h : k.MentionedIn text) : k.InLongerName text := by
  obtain ⟨before, after, rfl, hbegin, hend⟩ := h
  have hbytes : ∀ b ∈ k.text, isNameByte b = true := fun b hb => isNameByte_iff.mpr (hname.ident_or_separator hb)
  obtain ⟨front, p, s, behind, rfl, rfl, hrun⟩ := @exists_run before k.text after hbytes
  have hne : k.text ≠ [] := fun h => Name.not_proper_nil (h ▸ hname)
  have hlinked : Linked front behind := by
    refine hmembers front (p ++ (k.text ++ s)) behind (by simp) hrun k hk hne ?_
    rw [← List.append_assoc]
    exact List.infix_append ..
  have hp : ∀ b ∈ p, isNameByte b = true := fun b hb => hrun.inside b (by simp [hb])
  have hs : ∀ b ∈ s, isNameByte b = true := fun b hb => hrun.inside b (by simp [hb])
  refine ⟨front, p, s, behind, by simp, hrun, hbegin, hend, ?_⟩
  obtain ⟨op, hop, hfront | hbehind⟩ := hlinked
  · -- the operator in front is no neighbour of the mention
    refine Or.inl (separator_suffix ?_ hp hbegin)
    rintro rfl
    rw [List.append_nil] at hbegin
    exact hbegin.member op hop hfront
  · refine Or.inr (separator_isPrefix ?_ hs hend)
    rintro rfl
    exact hend.member op hop hbehind

/-! ### The names of an entry -/

theorem standsIn_of_mentionedIn {e : Mapping.Entry} (hclass : ¬ Restarts e.targetClass) {k : Token}
    (hk : k ∈ namesOf e) (hname : Name.Proper k.text) {text : Text} (h : k.MentionedIn text) :
    k.standsIn text = true := by
  refine (Token.standsIn_iff (fun hnil => Name.not_proper_nil (hnil ▸ hname)) ?_).mpr h
  simp only [namesOf, List.mem_cons, List.not_mem_nil, or_false] at hk
  rcases hk with rfl | rfl | rfl | rfl
  · exact neverHidden_namespace hname
  · exact neverHidden_class hname hclass
  · exact neverHidden_namespace hname
  · exact neverHidden_class hname (not_restarts_of_not_mem (Name.separator_not_mem_shortName _))

/-- **What is found in a text that names an entry in member references only.** Let the names of the entry be names of the
language or empty. What the scan finds is then a part of a longer qualified name: it stands behind a separator of that
name, or is a namespace in front of one. And if the new class name does not begin again behind one of its separators,
every such part is found. -/
theorem mentioned_in_members_iff {e : Mapping.Entry} (hnames : ∀ k ∈ namesOf e, k.text = [] ∨ Name.Proper k.text)
    {text : Text} (hmembers : MembersOnly (namesOf e) text) :
    (mentionedIn (tokensOf e) text = true → ∃ k ∈ namesOf e, k.text ≠ [] ∧ k.InLongerName text) ∧
    (¬ Restarts e.targetClass → (∃ k ∈ namesOf e, k.text ≠ [] ∧ k.InLongerName text) →
      mentionedIn (tokensOf e) text = true) := by
  rw [mentionedIn, List.any_eq_true]
  constructor
  · rintro ⟨k, hk, hstands⟩
    obtain ⟨hname, hne⟩ := mem_tokensOf.mp hk
    have hmentioned : k.MentionedIn text := Token.mentionedIn_of_standsIn hstands
    exact ⟨k, hname, hne, hmentioned.inLongerName hname ((hnames k hname).resolve_left hne) hmembers⟩
  · rintro hclass ⟨k, hname, hne, hlonger⟩
    exact ⟨k, mem_tokensOf.mpr ⟨hname, hne⟩,
      standsIn_of_mentionedIn hclass hname ((hnames k hname).resolve_left hne) hlonger.mentionedIn⟩

/-- A receiver that lies below the old namespace. -/
theorem mentioned_in_members_iff_sample :
    let e : Mapping.Entry := ⟨.ofString "Old\\Foo", .ofString "New", .ofString "Bar", .ofString "a", .ofString "b"⟩
    let text := Text.ofString "x Old\\Foo::f"
    (∀ k ∈ namesOf e, k.text = [] ∨ Name.Proper k.text) ∧ MembersOnly (namesOf e) text ∧
      ∃ k ∈ namesOf e, k.text ≠ [] ∧ k.InLongerName text := by
  intro e text
  have hnames : ∀ k ∈ namesOf e, k.text = [] ∨ Name.Proper k.text := by decide +kernel
  have hmembers : MembersOnly (namesOf e) text := by decide +kernel
  exact ⟨hnames, hmembers, (mentioned_in_members_iff hnames hmembers).1 (by decide +kernel)⟩

/-- **A member reference can be a mention**: the old namespace stands in front of a separator of the receiver, and so the
operator behind the receiver is not next to it. -/
theorem member_mentioned :
    let e : Mapping.Entry :=
      ⟨.ofString "Old\\Foo\\Foo", .ofString "New\\Foo", .ofString "Bar", .ofString "a", .ofString "b"⟩
    let text := Text.ofString "Passing $x to Old\\Foo\\Foo::__construct() is deprecated"
    (∀ k ∈ namesOf e, Name.Proper k.text) ∧ MembersOnly (namesOf e) text ∧ mentionedIn (tokensOf e) text = true := by
  intro e text
  have hnames : ∀ k ∈ namesOf e, Name.Proper k.text := by decide +kernel
  have hmembers : MembersOnly (namesOf e) text := by decide +kernel
  exact ⟨hnames, hmembers, by decide +kernel⟩

end Polyfill.Notice
