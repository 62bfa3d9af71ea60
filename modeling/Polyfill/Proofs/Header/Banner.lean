import Polyfill.Header
import Polyfill.Proofs.Text.Blank

/-! # The banner in front of a text

A text with a banner in front has the banner's open tag and comment as its prologue. The comment ends where the
banner ends it, as long as the name in it does not end it earlier. So a banner is recognized and replaced if a
`namespace` or `declare` statement follows, and in front of anything else a second one is added.

* `comment`: the comment of a banner.
* `after?_of_open`: the end of a comment is found behind a text that does not end it.
* `stripPrologue_banner`: what is left of a text behind a banner.
* `apply_banner_eq_self_iff`: when a text with a banner stays as it is.
* `apply_twice`: what a second header does. -/

namespace Polyfill

open Source

namespace Text

/-! ### White space at the start -/

theorem blanks_of_ascii : ∀ u ∈ blanks, ∀ b ∈ u.head?, b < 0x80 → u = [b] := by decide +kernel

/-- An ASCII byte is a white-space character of its own, or part of none. -/
theorem leadingUnit_blanks_cons {b : UInt8} (t : Text) (hb : b < 0x80) :
    leadingUnit blanks (b :: t) = if isCodeBlank b then 1 else 0 := by
  cases hn : leadingUnit blanks (b :: t) with
  | zero =>
    split
    · next hc =>
      have hp : [b] <+: b :: t := ⟨t, rfl⟩
      exact absurd hn (leadingUnit_ne_zero (fun u hu => (blanks_spec u hu).1) (singleton_mem_blanks hc) hp)
    · rfl
  | succ n =>
    obtain ⟨u, hu, ⟨r, hr⟩, hlen⟩ := leadingUnit_eq_succ hn
    cases u with
    | nil => simp at hlen
    | cons x u =>
      obtain ⟨rfl, -⟩ := List.cons.inj hr
      have hsingle := blanks_of_ascii _ hu x rfl hb
      have hc := (blanks_spec _ hu).2.1 x (List.mem_cons_self ..) hb
      rw [hsingle] at hlen
      rw [if_pos hc, ← hlen, List.length_singleton]

theorem trimStart_cons_blank {b : UInt8} (t : Text) (hb : b < 0x80) (hc : isCodeBlank b = true) :
    trimStart (b :: t) = t.trimStart := by
  rw [trimStart, dropUnits, leadingUnit_blanks_cons t hb, if_pos hc, trimStart]

theorem trimStart_cons_ink {b : UInt8} (t : Text) (hb : b < 0x80) (hc : isCodeBlank b = false) :
    trimStart (b :: t) = b :: t := by
  rw [trimStart, dropUnits, leadingUnit_blanks_cons t hb, if_neg (by simp [hc])]

/-! ### The end of a comment -/

/-- The text neither holds the end of a comment nor starts one with its last byte. -/
def staysOpen : Text → Bool
  | [] => true
  | [b] => b != 0x2A
  | b :: b' :: t => !(b == 0x2A && b' == 0x2F) && staysOpen (b' :: t)

theorem staysOpen_append : ∀ {s t : Text}, staysOpen s = true → staysOpen t = true → staysOpen (s ++ t) = true
  | [], _, _, ht => ht
  | [b], [], hs, _ => hs
  | [b], b' :: t, hs, ht => by
    have hb : (b == 0x2A) = false := by simpa [staysOpen] using hs
    rw [List.singleton_append, staysOpen, hb, Bool.false_and, Bool.not_false, Bool.true_and]
    exact ht
  | b :: b' :: s, t, hs, ht => by
    rw [staysOpen, Bool.and_eq_true] at hs
    rw [List.cons_append, List.cons_append, staysOpen, Bool.and_eq_true]
    exact ⟨hs.1, staysOpen_append (s := b' :: s) hs.2 ht⟩

theorem staysOpen_of_not_includes : ∀ {t : Text}, includes [0x2A, 0x2F] t = false → staysOpen (t ++ [0x2E]) = true
  | [], _ => rfl
  | [b], _ => by simp [staysOpen]
  | b :: b' :: t, h => by
    rw [includes, Bool.or_eq_false_iff] at h
    rw [List.cons_append, List.cons_append, staysOpen, Bool.and_eq_true]
    refine ⟨?_, staysOpen_of_not_includes (t := b' :: t) h.2⟩
    have hp := h.1
    simp only [List.isPrefixOf, Bool.and_true] at hp
    rw [Bool.not_eq_true', Bool.eq_false_iff]
    intro hb
    rw [Bool.and_eq_true, beq_iff_eq, beq_iff_eq] at hb
    simp [hb.1, hb.2] at hp

/-- **The end of a comment is found behind a text that does not end it.** -/
theorem after?_of_open : ∀ {t r : Text}, staysOpen t = true →
    after? [0x2A, 0x2F] (t ++ 0x2A :: 0x2F :: r) = some r
  | [], r, _ => by simp [after?]
  | [b], r, h => by
    have hb : b ≠ 0x2A := by simpa [staysOpen] using h
    have hne : (0x2A == b) = false := beq_eq_false_iff_ne.mpr hb.symm
    rw [List.singleton_append, after?, List.isPrefixOf_cons_cons, hne, Bool.false_and, if_neg Bool.false_ne_true]
    exact after?_of_open (t := []) rfl
  | b :: b' :: t, r, h => by
    rw [staysOpen, Bool.and_eq_true, Bool.not_eq_true'] at h
    have hp : ([0x2A, 0x2F] : Text).isPrefixOf (b :: b' :: (t ++ 0x2A :: 0x2F :: r)) = false := by
      rw [Bool.eq_false_iff]
      intro hp
      simp only [List.isPrefixOf_cons_cons, List.isPrefixOf_nil_left, Bool.and_true, Bool.and_eq_true, beq_iff_eq] at hp
      simp [← hp.1, ← hp.2] at h
    rw [List.cons_append, List.cons_append, after?, hp, if_neg Bool.false_ne_true]
    exact after?_of_open (t := b' :: t) h.2

end Text

namespace Header

open Text

/-! ### Statements that a file comment precedes -/

theorem exists_of_startsWithKeyword {keyword : String} {k : UInt8} {w : Text} (hk : ofString keyword = k :: w)
    {t : Text} (h : startsWithKeyword keyword t = true) : ∃ b r, t = b :: r ∧ lowerByte b = lowerByte k := by
  rw [startsWithKeyword, hk, Bool.and_eq_true, sameIgnoringCase, beq_iff_eq] at h
  cases t with
  | nil => simp [lower] at h
  | cons b r =>
    have h₁ := h.1
    simp only [List.length_cons, List.take_succ_cons, lower, List.map_cons, List.cons.injEq] at h₁
    exact ⟨b, r, rfl, h₁.1⟩

theorem ink_of_lowerByte : ∀ b : UInt8, lowerByte b = 0x6E ∨ lowerByte b = 0x64 →
    b < 0x80 ∧ isCodeBlank b = false := by
  grind [lowerByte, isCodeBlank]

theorem trimStart_of_startsFileStatement {t : Text} (h : startsFileStatement t = true) : t.trimStart = t := by
  have hstart : ∃ b r, t = b :: r ∧ (lowerByte b = 0x6E ∨ lowerByte b = 0x64) := by
    rw [startsFileStatement, Bool.or_eq_true] at h
    rcases h with h | h
    · obtain ⟨b, r, ht, hb⟩ := exists_of_startsWithKeyword (k := 0x6E) (w := (ofString "namespace").tail)
        rfl h
      exact ⟨b, r, ht, Or.inl hb⟩
    · obtain ⟨b, r, ht, hb⟩ := exists_of_startsWithKeyword (k := 0x64) (w := (ofString "declare").tail)
        rfl h
      exact ⟨b, r, ht, Or.inr hb⟩
  obtain ⟨b, r, rfl, hb⟩ := hstart
  obtain ⟨hlt, hink⟩ := ink_of_lowerByte b hb
  exact trimStart_cons_ink r hlt hink

/-! ### The banner as a prologue -/

/-- The comment of a banner without its end. -/
def openComment (identity : Text) : Text :=
  ofString ("/**\n * " ++ marker ++ " ") ++ (identity ++ [0x2E]) ++
    ofString "\n *\n * This file is generated from the upstream source. Do not edit it by hand.\n "

/-- The comment of a banner. -/
def comment (identity : Text) : Text := openComment identity ++ [0x2A, 0x2F]

theorem banner_eq (identity : Text) :
    banner identity = ofString "<?php\n\n" ++ (comment identity ++ ofString "\n\n") := by
  have hfront : ofString ("<?php\n\n/**\n * " ++ marker ++ " ") =
      ofString "<?php\n\n" ++ ofString ("/**\n * " ++ marker ++ " ") := rfl
  have hback : ofString (".\n *\n * This file is generated from the upstream source. Do not edit it by hand.\n" ++
      " */\n\n") = [0x2E] ++ (ofString
        "\n *\n * This file is generated from the upstream source. Do not edit it by hand.\n " ++
          ([0x2A, 0x2F] ++ ofString "\n\n")) := rfl
  rw [banner, hfront, hback, comment, openComment]
  simp only [List.append_assoc]

theorem staysOpen_openComment {identity : Text} (h : includes [0x2A, 0x2F] identity = false) :
    staysOpen (openComment identity) = true := by
  refine staysOpen_append (staysOpen_append ?_ (staysOpen_of_not_includes h)) ?_
  · rfl
  · rfl

/-- The open tag of a banner is dropped, with the white space behind it. -/
theorem dropOpenTag_banner (identity body : Text) :
    dropOpenTag (dropByteOrderMark (banner identity ++ body)) = comment identity ++ (ofString "\n\n" ++ body) := by
  obtain ⟨c, hc⟩ : ∃ c, comment identity = 0x2F :: c := ⟨_, rfl⟩
  have htag : banner identity ++ body =
      0x3C :: 0x3F :: 0x70 :: 0x68 :: 0x70 :: 0x0A :: 0x0A :: 0x2F :: (c ++ (ofString "\n\n" ++ body)) := by
    rw [banner_eq, hc]
    simp only [List.append_assoc, List.cons_append]
    rfl
  have hmark : byteOrderMark.isPrefixOf (banner identity ++ body) = false := by
    rw [htag]
    rfl
  rw [dropByteOrderMark, if_neg (by simp [hmark]), dropOpenTag, htag,
    trimStart_cons_ink _ (by decide) (by decide)]
  have hcond : (sameIgnoringCase (([0x3C, 0x3F, 0x70, 0x68, 0x70] : Text)) (ofString "<?php")) = true := rfl
  have hblank : startsBlank (0x0A :: 0x0A :: 0x2F :: (c ++ (ofString "\n\n" ++ body))) = true := by
    rw [startsBlank, leadingUnit_blanks_cons _ (by decide), if_pos (by decide)]
    rfl
  simp only [List.take_succ_cons, List.take_zero, List.drop_succ_cons, List.drop_zero, hcond, hblank,
    Bool.or_true, Bool.and_true, if_true]
  rw [trimStart_cons_blank _ (by decide) (by decide), trimStart_cons_blank _ (by decide) (by decide),
    trimStart_cons_ink _ (by decide) (by decide), hc, List.cons_append]

/-- **What is left of a text behind a banner**: the text itself, without white space in front, if it is a `namespace`
or `declare` statement, and else the text with the banner's comment. -/
theorem stripPrologue_banner {identity : Text} (h : includes [0x2A, 0x2F] identity = false) (body : Text) :
    stripPrologue (banner identity ++ body) =
      if startsFileStatement body.trimStart then body.trimStart
      else comment identity ++ (ofString "\n\n" ++ body) := by
  have hopen := after?_of_open (r := ofString "\n\n" ++ body) (staysOpen_openComment h)
  have hstart : startsWith (comment identity ++ (ofString "\n\n" ++ body)) "/*" = true := rfl
  have htrim : (ofString "\n\n" ++ body).trimStart = body.trimStart := by
    have : ofString "\n\n" ++ body = 0x0A :: 0x0A :: body := rfl
    rw [this, trimStart_cons_blank _ (by decide) (by decide), trimStart_cons_blank _ (by decide) (by decide)]
  have hneedle : ofString "*/" = [0x2A, 0x2F] := rfl
  have hafter : after? (ofString "*/") (comment identity ++ (ofString "\n\n" ++ body)) =
      some (ofString "\n\n" ++ body) := by
    rw [hneedle, comment, List.append_assoc]
    exact hopen
  rw [stripPrologue, dropOpenTag_banner, dropFileComment, if_pos hstart, hafter]
  simp only [htrim]

/-- **A text with a banner stays as it is** if and only if a `namespace` or `declare` statement follows the banner. -/
theorem apply_banner_eq_self_iff {identity : Text} (h : includes [0x2A, 0x2F] identity = false) (body : Text) :
    apply (banner identity ++ body) identity = banner identity ++ body ↔ startsFileStatement body = true := by
  rw [apply, List.append_cancel_left_eq, stripPrologue_banner h]
  constructor
  · intro heq
    split at heq
    · next hs => rwa [heq] at hs
    · have := congrArg List.length heq
      simp only [comment, List.length_append, List.length_cons, List.length_nil] at this
      omega
  · intro hs
    rw [trimStart_of_startsFileStatement hs, if_pos hs]

/-! ### Two headers -/

theorem dropFileComment_cases (t : Text) :
    dropFileComment t = t ∨ startsFileStatement (dropFileComment t) = true := by
  rw [dropFileComment]
  split
  · split
    · exact Or.inl rfl
    · split
      · next h => exact Or.inr h
      · exact Or.inl rfl
  · exact Or.inl rfl

theorem dropOpenTag_cases (t : Text) : dropOpenTag t = t ∨ (dropOpenTag t).trimStart = dropOpenTag t := by
  rw [dropOpenTag]
  split
  · exact Or.inr (trimStart_trimStart _)
  · exact Or.inl rfl

theorem stripPrologue_of_blank {text : Text} (h : startsFileStatement (stripPrologue text) = false)
    (htrim : startsFileStatement (stripPrologue text).trimStart = true) :
    stripPrologue text = dropByteOrderMark text := by
  have hcomment : stripPrologue text = dropOpenTag (dropByteOrderMark text) := by
    refine (dropFileComment_cases (dropOpenTag (dropByteOrderMark text))).resolve_right fun hs => ?_
    change startsFileStatement (stripPrologue text) = true at hs
    rw [h] at hs
    cases hs
  have htag := (dropOpenTag_cases (dropByteOrderMark text)).resolve_right fun hs => by
    rw [hcomment, hs, ← hcomment, h] at htrim
    cases htrim
  exact hcomment.trans htag

/-- **A header that is put on twice.** The second one changes nothing if and only if a `namespace` or `declare`
statement follows the first. Otherwise the comment of the banner stands in the text twice, unless nothing but white
space is in front of such a statement. Then, and only a text without an open tag is like that, the second header takes
this white space away, and a third changes nothing. -/
theorem apply_twice {identity : Text} (h : includes [0x2A, 0x2F] identity = false) (text : Text) :
    (apply (apply text identity) identity = apply text identity ↔ startsFileStatement (stripPrologue text) = true) ∧
    (startsFileStatement (stripPrologue text).trimStart = false →
      apply (apply text identity) identity = ofString "<?php\n\n" ++ (comment identity ++ (ofString "\n\n" ++
        (comment identity ++ (ofString "\n\n" ++ stripPrologue text))))) ∧
    (startsFileStatement (stripPrologue text) = false → startsFileStatement (stripPrologue text).trimStart = true →
      stripPrologue text = dropByteOrderMark text ∧
      apply (apply text identity) identity = banner identity ++ (stripPrologue text).trimStart ∧
      apply (apply (apply text identity) identity) identity = apply (apply text identity) identity) := by
  have hsecond : apply (apply text identity) identity = banner identity ++
      if startsFileStatement (stripPrologue text).trimStart then (stripPrologue text).trimStart
      else comment identity ++ (ofString "\n\n" ++ stripPrologue text) := by
    rw [apply, apply, stripPrologue_banner h]
  refine ⟨apply_banner_eq_self_iff h _, fun htrim => ?_, fun hnot htrim => ?_⟩
  · rw [hsecond, if_neg (by simp [htrim]), banner_eq]
    simp only [List.append_assoc]
  · rw [if_pos htrim] at hsecond
    refine ⟨stripPrologue_of_blank hnot htrim, hsecond, ?_⟩
    rw [hsecond, apply_banner_eq_self_iff h, htrim]

/-- A class without a namespace gets a second banner, and a text whose namespace has no open tag does not. -/
theorem apply_twice_sample :
    let identity := ofString "Old\\Foo"
    let once := apply (ofString "<?php\nclass Foo \x7b\x7d\n") identity
    includes [0x2A, 0x2F] identity = false ∧ apply once identity ≠ once ∧
      apply once identity = ofString "<?php\n\n" ++ (comment identity ++ (ofString "\n\n" ++
        (comment identity ++ ofString "\n\nclass Foo \x7b\x7d\n"))) ∧
      apply (apply (ofString " namespace A;\n") identity) identity = banner identity ++ ofString "namespace A;\n" := by
  intro identity once
  have hid : includes [0x2A, 0x2F] identity = false := rfl
  have hclass := apply_twice hid (ofString "<?php\nclass Foo \x7b\x7d\n")
  have hblank := apply_twice hid (ofString " namespace A;\n")
  exact ⟨hid, fun heq => absurd (hclass.1.mp heq) (by decide +kernel), hclass.2.1 (by decide +kernel),
    (hblank.2.2 (by decide +kernel) (by decide +kernel)).2.1⟩

/-- **A second banner can be missing although no such statement follows the first**: white space is between them. -/
theorem banner_not_doubled :
    let identity := ofString "Old\\Foo"
    let text := ofString " namespace A;\n"
    includes [0x2A, 0x2F] identity = false ∧ startsFileStatement (stripPrologue text) = false ∧
      apply (apply text identity) identity ≠ apply text identity ∧
      (occurrences (comment identity) (apply (apply text identity) identity)).length = 1 := by
  decide +kernel

end Header

end Polyfill
