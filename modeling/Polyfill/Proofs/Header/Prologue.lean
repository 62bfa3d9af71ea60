import Polyfill.Proofs.Header.Banner
import Polyfill.Proofs.Text.Search

/-! # What is taken for a prologue

The prologue of a file is its byte-order mark, its open tag and a block comment in front of a `namespace` or `declare`
statement, each with the white space around it and each only if it is there. What is taken off the start of a file is
found by a plain search and not by reading the code. The search for the end of the comment begins at the start of the
comment. So it can meet an end sign that shares the star of the opening sign, and then the comment is cut short.
In all other files the longest prologue is taken off, and nothing else.

* `IsPrologue`: a text is a prologue in front of another.
* `CutShort`: the file comment is taken to end within its opening sign.
* `stripPrologue_takes_prologue_iff`: what is taken off is a prologue, unless the comment is cut short.
* `comment_cut_short`: a file whose comment is cut short. -/

namespace Polyfill.Header

open Source Text

/-! ### Prologues -/

/-- A complete block comment: it ends with the first end sign behind its opening sign. -/
def IsBlockComment (t : Text) : Prop :=
  ∃ inner, t = ofString "/*" ++ (inner ++ ofString "*/") ∧
    ∀ k < inner.length, ¬ ofString "*/" <+: (inner ++ ofString "*/").drop k

/-- An open tag in front of `rest`, in any case and with white space on both sides. White space has to follow it,
unless it ends the file. -/
def IsOpenTag (t rest : Text) : Prop :=
  ∃ before tag behind, t = before ++ (tag ++ behind) ∧ IsRow blanks before ∧
    sameIgnoringCase tag (ofString "<?php") = true ∧ IsRow blanks behind ∧ (behind = [] → rest = [])

/-- A block comment, with white space behind it, in front of a `namespace` or `declare` statement. -/
def IsFileComment (t rest : Text) : Prop :=
  ∃ comment behind, t = comment ++ behind ∧ IsBlockComment comment ∧ IsRow blanks behind ∧
    startsFileStatement rest = true

/-- **A prologue in front of `rest`**: a byte-order mark, an open tag and a file comment, each of which may be
missing. -/
def IsPrologue (t rest : Text) : Prop :=
  ∃ mark tag comment, t = mark ++ (tag ++ comment) ∧ (mark = [] ∨ mark = byteOrderMark) ∧
    (tag = [] ∨ IsOpenTag tag (comment ++ rest)) ∧ (comment = [] ∨ IsFileComment comment rest)

/-- The source behind its byte-order mark and its open tag. -/
def behindTag (source : Text) : Text := dropOpenTag (dropByteOrderMark source)

/-- **The comment is taken to end within its opening sign**, in front of what reads as a statement. -/
def CutShort (source : Text) : Prop :=
  ∃ rest, behindTag source = ofString "/*/" ++ rest ∧ startsFileStatement rest.trimStart = true

variable {source t rest tag comment removed : Text}

/-! ### The byte-order mark -/

theorem exists_mark (t : Text) : ∃ mark, (mark = [] ∨ mark = byteOrderMark) ∧ t = mark ++ dropByteOrderMark t := by
  rw [dropByteOrderMark]
  split
  · next h =>
    exact ⟨byteOrderMark, Or.inr rfl, (List.prefix_iff_eq_append.mp (List.isPrefixOf_iff_prefix.mp h)).symm⟩
  · exact ⟨[], Or.inl rfl, rfl⟩

theorem dropByteOrderMark_append (t : Text) : dropByteOrderMark (byteOrderMark ++ t) = t := by
  rw [dropByteOrderMark, if_pos (List.isPrefixOf_iff_prefix.mpr (List.prefix_append ..)), List.drop_left]

/-! ### The open tag -/

/-- An open tag is written with the bytes of its sign and starts with its first one. -/
theorem exists_of_sameTag (h : sameIgnoringCase tag (ofString "<?php") = true) :
    ∃ u, tag = 0x3C :: u ∧ u.length = 4 ∧ 0x2F ∉ tag := by
  rw [sameIgnoringCase, beq_iff_eq] at h
  have hlower : (ofString "<?php").lower = [0x3C, 0x3F, 0x70, 0x68, 0x70] := rfl
  rw [hlower] at h
  have hslash : 0x2F ∉ tag := by
    intro hmem
    have hmap : lowerByte 0x2F ∈ tag.lower := List.mem_map_of_mem hmem
    rw [h] at hmap
    exact absurd hmap (by decide)
  have hlen := congrArg List.length h
  rw [lower, List.length_map] at hlen
  cases tag with
  | nil => cases h
  | cons b u =>
    have hb : lowerByte b = 0x3C := (List.cons.inj h).1
    have hbyte : ∀ b : UInt8, lowerByte b = 0x3C → b = 0x3C := by grind [lowerByte]
    exact ⟨u, by rw [hbyte b hb], by simpa using hlen, hslash⟩

theorem IsOpenTag.not_mem (h : IsOpenTag tag rest) : 0x2F ∉ tag := by
  obtain ⟨before, sign, behind, rfl, hbefore, hsign, hbehind, -⟩ := h
  obtain ⟨-, -, -, hslash⟩ := exists_of_sameTag hsign
  simp only [List.mem_append, not_or]
  exact ⟨hbefore.not_mem (by decide) (by decide), hslash, hbehind.not_mem (by decide) (by decide)⟩

/-- What is dropped as an open tag is one. -/
theorem exists_tag (t : Text) : ∃ tag, (tag = [] ∨ IsOpenTag tag (dropOpenTag t)) ∧ t = tag ++ dropOpenTag t := by
  rw [dropOpenTag]
  split
  · next h =>
    rw [Bool.and_eq_true, Bool.or_eq_true] at h
    obtain ⟨before, hbefore, ht⟩ := exists_dropUnits blanks t
    obtain ⟨behind, hbehind, hrest⟩ := exists_dropUnits blanks (t.trimStart.drop 5)
    change t = before ++ t.trimStart at ht
    change t.trimStart.drop 5 = behind ++ trimStart (t.trimStart.drop 5) at hrest
    refine ⟨before ++ (t.trimStart.take 5 ++ behind), Or.inr ⟨before, _, behind, rfl, hbefore, h.1, hbehind, ?_⟩, ?_⟩
    · rintro rfl
      rw [List.nil_append] at hrest
      rcases h.2 with hnil | hblank
      · rw [← hrest, List.isEmpty_iff.mp hnil]
      · rw [startsBlank, hrest, trimStart, leadingUnit_dropUnits] at hblank
        cases hblank
    · rw [List.append_assoc, List.append_assoc, ← hrest, List.take_append_drop]
      exact ht
  · exact ⟨[], Or.inl rfl, rfl⟩

/-- An open tag is dropped, with all white space behind it. -/
theorem dropOpenTag_append (h : IsOpenTag tag rest) : dropOpenTag (tag ++ rest) = rest.trimStart := by
  obtain ⟨before, sign, behind, rfl, hbefore, hsign, hbehind, hend⟩ := h
  obtain ⟨u, rfl, hlen, -⟩ := exists_of_sameTag hsign
  have htrim : (before ++ (0x3C :: u ++ behind) ++ rest).trimStart = 0x3C :: u ++ (behind ++ rest) := by
    rw [List.append_assoc, trimStart_append hbefore, List.append_assoc]
    exact trimStart_cons_ink _ (by decide) (by decide)
  have hsize : (0x3C :: u).length = 5 := by rw [List.length_cons, hlen]
  have hafter : ((behind ++ rest).isEmpty || startsBlank (behind ++ rest)) = true := by
    rw [Bool.or_eq_true]
    obtain ⟨units, hunits, rfl⟩ := hbehind
    cases units with
    | nil => exact Or.inl (by rw [hend rfl]; rfl)
    | cons v units =>
      refine Or.inr (bne_iff_ne.mpr (leadingUnit_ne_zero (fun w hw => (blanks_spec w hw).1) (hunits v (by simp)) ?_))
      rw [List.flatten_cons, List.append_assoc]
      exact List.prefix_append ..
  rw [dropOpenTag]
  rw [htrim, ← hsize, List.take_left, List.drop_left, hsign, hafter, Bool.and_self, if_pos rfl]
  exact trimStart_append hbehind rest

theorem dropOpenTag_slash (t : Text) : dropOpenTag (0x2F :: t) = 0x2F :: t := by
  have hno : sameIgnoringCase ((0x2F :: t).take 5) (ofString "<?php") = false := by
    rw [Bool.eq_false_iff]
    intro h
    obtain ⟨u, hu, -⟩ := exists_of_sameTag h
    cases hu
  rw [dropOpenTag]
  rw [trimStart_cons_ink _ (by decide) (by decide), hno, Bool.false_and, if_neg Bool.false_ne_true]

/-! ### The file comment -/

theorem short_prefix_iff (t : Text) : ofString "/*/" <+: ofString "/*" ++ t ↔ ofString "/" <+: t := by
  have hopen : ofString "/*/" = ofString "/*" ++ ofString "/" := rfl
  rw [hopen, List.prefix_append_right_inj]

theorem after?_comment (t : Text) : after? (ofString "*/") (ofString "/*" ++ t) =
    if ofString "/" <+: t then some (t.drop 1) else after? (ofString "*/") t := by
  have hfront : ofString "/*" ++ t = 0x2F :: 0x2A :: t := rfl
  have hneedle : ofString "*/" = [0x2A, 0x2F] := rfl
  have hslash : ofString "/" = [0x2F] := rfl
  have hfirst : ([0x2A, 0x2F] : Text).isPrefixOf (0x2F :: 0x2A :: t) = false := rfl
  rw [hfront, hneedle, hslash, after?, hfirst, if_neg Bool.false_ne_true, after?]
  simp only [List.isPrefixOf_iff_prefix, List.cons_prefix_cons, true_and, List.length_cons, List.length_nil,
    List.drop_succ_cons]

theorem IsBlockComment.after? (h : IsBlockComment comment) (hshort : ¬ ofString "/*/" <+: comment ++ rest) :
    Text.after? (ofString "*/") (comment ++ rest) = some rest := by
  obtain ⟨inner, rfl, hfirst⟩ := h
  rw [List.append_assoc, short_prefix_iff] at hshort
  rw [List.append_assoc, after?_comment, if_neg hshort, after?_eq_some_iff]
  refine ⟨inner, List.append_assoc .., fun k hk hp => hfirst k hk ?_⟩
  -- the sign fits into the comment, so it does not reach into what follows
  rw [List.drop_append_of_le_length (by rw [List.length_append]; omega)] at hp
  refine List.prefix_of_prefix_length_le hp (List.prefix_append ..) ?_
  have hlen : (ofString "*/").length = 2 := rfl
  rw [List.length_drop, List.length_append, hlen]
  omega

theorem isBlockComment_of_after? (h : Text.after? (ofString "*/") t = some rest) :
    ∃ comment, IsBlockComment comment ∧ ofString "/*" ++ t = comment ++ rest := by
  obtain ⟨inner, rfl, hfirst⟩ := after?_eq_some_iff.mp h
  refine ⟨ofString "/*" ++ (inner ++ ofString "*/"), ⟨inner, rfl, fun k hk hp => hfirst k hk ?_⟩, by
    simp only [List.append_assoc]⟩
  rw [← List.append_assoc, List.drop_append_of_le_length (by rw [List.length_append]; omega)]
  exact hp.trans (List.prefix_append ..)

/-- What is dropped as a file comment is one, unless it is cut short. -/
theorem exists_fileComment (hshort : ¬ ofString "/*/" <+: t) : ∃ comment,
    (comment = [] ∨ IsFileComment comment (dropFileComment t)) ∧ t = comment ++ dropFileComment t := by
  rw [dropFileComment]
  split
  · next hstart =>
    split
    · exact ⟨[], Or.inl rfl, rfl⟩
    · next after hafter =>
      split
      · next hstatement =>
        rw [startsWith, List.isPrefixOf_iff_prefix] at hstart
        obtain ⟨u, rfl⟩ := hstart
        rw [short_prefix_iff] at hshort
        rw [after?_comment, if_neg hshort] at hafter
        obtain ⟨comment, hcomment, heq⟩ := isBlockComment_of_after? hafter
        obtain ⟨behind, hbehind, hrest⟩ := exists_dropUnits blanks after
        change after = behind ++ after.trimStart at hrest
        refine ⟨comment ++ behind, Or.inr ⟨comment, behind, rfl, hcomment, hbehind, hstatement⟩, ?_⟩
        rw [List.append_assoc, ← hrest, heq]
      · exact ⟨[], Or.inl rfl, rfl⟩
  · exact ⟨[], Or.inl rfl, rfl⟩

theorem dropFileComment_append (h : IsFileComment comment rest) (hshort : ¬ ofString "/*/" <+: comment ++ rest) :
    dropFileComment (comment ++ rest) = rest := by
  obtain ⟨block, behind, rfl, hblock, hbehind, hstatement⟩ := h
  rw [List.append_assoc] at hshort ⊢
  have hafter := hblock.after? hshort
  have hstart : startsWith (block ++ (behind ++ rest)) "/*" = true := by
    obtain ⟨inner, rfl, -⟩ := hblock
    rw [startsWith, List.isPrefixOf_iff_prefix, List.append_assoc]
    exact List.prefix_append ..
  have htrim : (behind ++ rest).trimStart = rest := by
    rw [trimStart_append hbehind, trimStart_of_startsFileStatement hstatement]
  rw [dropFileComment, if_pos hstart, hafter]
  simp only [htrim, hstatement, if_true]

theorem dropFileComment_short (rest : Text) : dropFileComment (ofString "/*/" ++ rest) =
    if startsFileStatement rest.trimStart then rest.trimStart else ofString "/*/" ++ rest := by
  have hopen : ofString "/*/" ++ rest = ofString "/*" ++ (ofString "/" ++ rest) := rfl
  have hstart : startsWith (ofString "/*/" ++ rest) "/*" = true := rfl
  have hafter : after? (ofString "*/") (ofString "/*/" ++ rest) = some rest := by
    rw [hopen, after?_comment, if_pos (List.prefix_append ..)]
    rfl
  rw [dropFileComment, if_pos hstart, hafter]

theorem IsFileComment.starts (h : IsFileComment comment rest) : ∃ u, comment = 0x2F :: u := by
  obtain ⟨_, _, rfl, ⟨inner, rfl, -⟩, -, -⟩ := h
  exact ⟨_, rfl⟩

/-! ### What is taken off -/

theorem slash_not_mem_mark {mark : Text} (h : mark = [] ∨ mark = byteOrderMark) : 0x2F ∉ mark := by
  rcases h with rfl | rfl <;> decide

theorem slash_not_mem_tag (h : tag = [] ∨ IsOpenTag tag rest) : 0x2F ∉ tag := by
  rcases h with rfl | h
  · simp
  · exact h.not_mem

theorem exists_front (source : Text) : ∃ mark tag, (mark = [] ∨ mark = byteOrderMark) ∧
    (tag = [] ∨ IsOpenTag tag (behindTag source)) ∧ source = mark ++ (tag ++ behindTag source) := by
  obtain ⟨mark, hmark, hsource⟩ := exists_mark source
  obtain ⟨tag, htag, hbehind⟩ := exists_tag (dropByteOrderMark source)
  refine ⟨mark, tag, hmark, htag, ?_⟩
  rw [behindTag, ← hbehind]
  exact hsource

theorem exists_prologue (hshort : ¬ ofString "/*/" <+: behindTag source) :
    ∃ removed, source = removed ++ stripPrologue source ∧ IsPrologue removed (stripPrologue source) := by
  obtain ⟨mark, tag, hmark, htag, hsource⟩ := exists_front source
  obtain ⟨comment, hcomment, hbehind⟩ := exists_fileComment hshort
  have hstrip : stripPrologue source = dropFileComment (behindTag source) := rfl
  rw [← hstrip] at hcomment hbehind
  refine ⟨mark ++ (tag ++ comment), ?_, mark, tag, comment, rfl, hmark, hbehind ▸ htag, hcomment⟩
  rw [List.append_assoc, List.append_assoc, ← hbehind]
  exact hsource

theorem eq_behind_slash {u v u' v' : Text} (hu : 0x2F ∉ u) (hu' : 0x2F ∉ u')
    (h : u ++ 0x2F :: v = u' ++ 0x2F :: v') : v = v' := by
  rcases List.append_eq_append_iff.mp h with ⟨w, rfl, hw⟩ | ⟨w, rfl, hw⟩
  · cases w with
    | nil => exact (List.cons.inj hw).2
    | cons b w => exact absurd (by simp [(List.cons.inj hw).1]) hu'
  · cases w with
    | nil => exact (List.cons.inj hw).2.symm
    | cons b w => exact absurd (by simp [(List.cons.inj hw).1]) hu

theorem CutShort.exists_removed (h : CutShort source) : ∃ front row, 0x2F ∉ front ∧ IsRow blanks row ∧
    source = (front ++ 0x2F :: (ofString "*/" ++ row)) ++ stripPrologue source := by
  obtain ⟨rest, hrest, hstatement⟩ := h
  obtain ⟨mark, tag, hmark, htag, hsource⟩ := exists_front source
  obtain ⟨row, hrow, hblank⟩ := exists_dropUnits blanks rest
  change rest = row ++ trimStart rest at hblank
  have hstrip : stripPrologue source = trimStart rest := by
    have h := dropFileComment_short rest
    rwa [← hrest, if_pos hstatement] at h
  refine ⟨mark ++ tag, row, ?_, hrow, ?_⟩
  · simpa only [List.mem_append, not_or] using ⟨slash_not_mem_mark hmark, slash_not_mem_tag htag⟩
  · rw [hstrip]
    simp only [List.append_assoc, List.cons_append]
    rw [← hblank]
    rwa [hrest] at hsource

/-- What is taken off a source whose comment is cut short is no prologue: it ends with a part of the comment. -/
theorem not_isPrologue_of_cutShort (h : CutShort source) (hremoved : source = removed ++ stripPrologue source) :
    ¬ IsPrologue removed (stripPrologue source) := by
  obtain ⟨front, row, hslash, hrow, hsource⟩ := h.exists_removed
  have hfront : removed = front ++ 0x2F :: (ofString "*/" ++ row) :=
    List.append_cancel_right (hremoved.symm.trans hsource)
  rintro ⟨mark, tag, comment, heq, hmark, htag, hcomment⟩
  have hslash' : 0x2F ∉ mark ++ tag := by
    simpa only [List.mem_append, not_or] using ⟨slash_not_mem_mark hmark, slash_not_mem_tag htag⟩
  rw [hfront, ← List.append_assoc] at heq
  rcases hcomment with rfl | ⟨block, behind, rfl, ⟨inner, rfl, -⟩, -, -⟩
  · rw [List.append_nil] at heq
    exact hslash' (heq ▸ by simp)
  · -- both sides start their comment with the first slash, so the inner part starts with the next one
    have hopen : ofString "/*" = [0x2F, 0x2A] := rfl
    have hclose : ofString "*/" = [0x2A, 0x2F] := rfl
    rw [hopen, hclose] at heq
    simp only [List.append_assoc, List.cons_append, List.nil_append] at heq
    rw [← List.append_assoc] at heq
    have hinner := (List.cons.inj (eq_behind_slash hslash hslash' heq)).2
    cases inner with
    | nil => cases (List.cons.inj hinner).1
    | cons b inner =>
      have hstar : 0x2A ∉ row := hrow.not_mem (by decide) (by decide)
      exact hstar ((List.cons.inj hinner).2 ▸ by simp)

/-- No open tag and no comment starts with a byte-order mark. -/
theorem not_mark_prefix (htag : tag = [] ∨ IsOpenTag tag (comment ++ rest))
    (hcomment : comment = [] ∨ IsFileComment comment rest) (hne : tag ++ comment ≠ []) :
    ¬ byteOrderMark <+: tag ++ (comment ++ rest) := by
  have hhead : ∀ {b : UInt8} (u : Text), b ≠ 0xEF → ¬ byteOrderMark <+: b :: u := by
    rintro b u hb hp
    exact hb (List.cons_prefix_cons.mp hp).1.symm
  rcases htag with rfl | ⟨before, sign, behind, rfl, ⟨units, hunits, rfl⟩, hsign, -, -⟩
  · rcases hcomment with rfl | hcomment
    · exact absurd rfl hne
    · obtain ⟨u, rfl⟩ := hcomment.starts
      exact hhead _ (by decide)
  · cases units with
    | nil =>
      obtain ⟨u, rfl, -⟩ := exists_of_sameTag hsign
      exact hhead _ (by decide)
    | cons v units =>
      have hblank : ∀ v ∈ blanks, v.head? ≠ some 0xEF := by decide +kernel
      have hv := hblank v (hunits v (by simp))
      obtain ⟨b, v, rfl⟩ := List.exists_cons_of_ne_nil (blanks_spec v (hunits v (by simp))).1
      exact hhead _ fun hb => hv (by rw [hb]; rfl)

theorem dropByteOrderMark_of_mark {mark : Text} (hmark : mark = [] ∨ mark = byteOrderMark)
    (htag : tag = [] ∨ IsOpenTag tag (comment ++ rest)) (hcomment : comment = [] ∨ IsFileComment comment rest)
    (hne : tag ++ comment ≠ []) :
    dropByteOrderMark (mark ++ (tag ++ (comment ++ rest))) = tag ++ (comment ++ rest) := by
  rcases hmark with rfl | rfl
  · rw [List.nil_append, dropByteOrderMark, if_neg]
    rw [List.isPrefixOf_iff_prefix]
    exact not_mark_prefix htag hcomment hne
  · exact dropByteOrderMark_append _

theorem dropOpenTag_of_comment (htag : tag = [] ∨ IsOpenTag tag (comment ++ rest))
    (hcomment : IsFileComment comment rest) : dropOpenTag (tag ++ (comment ++ rest)) = comment ++ rest := by
  obtain ⟨u, rfl⟩ := hcomment.starts
  rcases htag with rfl | htag
  · exact dropOpenTag_slash _
  · rw [dropOpenTag_append htag]
    exact trimStart_cons_ink _ (by decide) (by decide)

/-- Behind a prologue there is at least what is left of the source. -/
theorem stripPrologue_suffix (hshort : ¬ ofString "/*/" <+: behindTag source) (h : IsPrologue removed rest)
    (hsource : source = removed ++ rest) : stripPrologue source <:+ rest := by
  have hstrip : stripPrologue source = dropFileComment (behindTag source) := rfl
  have hsuffix : stripPrologue source <:+ behindTag source := by
    obtain ⟨comment, -, hbehind⟩ := exists_fileComment hshort
    exact ⟨comment, hbehind.symm⟩
  obtain ⟨mark, tag, comment, rfl, hmark, htag, hcomment⟩ := h
  by_cases hne : tag ++ comment = []
  · -- at most the mark is in front of the rest, and it is always taken off
    obtain ⟨rfl, rfl⟩ := List.append_eq_nil_iff.mp hne
    rw [List.append_nil, List.append_nil] at hsource
    obtain ⟨tag, -, hbehind⟩ := exists_tag (dropByteOrderMark source)
    refine (hsuffix.trans (⟨tag, hbehind.symm⟩ : behindTag source <:+ dropByteOrderMark source)).trans ?_
    rcases hmark with rfl | rfl
    · obtain ⟨mark, -, hmark⟩ := exists_mark source
      rw [List.nil_append] at hsource
      exact ⟨mark, by rw [← hmark, hsource]⟩
    · rw [hsource, dropByteOrderMark_append]
  · have hmarkless : dropByteOrderMark source = tag ++ (comment ++ rest) := by
      rw [hsource, List.append_assoc, List.append_assoc]
      exact dropByteOrderMark_of_mark hmark htag hcomment hne
    rcases hcomment with rfl | hcomment
    · refine hsuffix.trans ?_
      rw [List.append_nil] at hne
      rw [behindTag, hmarkless, dropOpenTag_append (htag.resolve_left hne)]
      obtain ⟨row, -, hrow⟩ := exists_dropUnits blanks rest
      exact ⟨row, hrow.symm⟩
    · have hbehind : behindTag source = comment ++ rest := by
        rw [behindTag, hmarkless, dropOpenTag_of_comment htag hcomment]
      rw [hbehind] at hshort
      rw [hstrip, hbehind, dropFileComment_append hcomment hshort]

theorem exists_prologue_short (hshort : ofString "/*/" <+: behindTag source) (hcut : ¬ CutShort source) :
    ∃ removed, source = removed ++ stripPrologue source ∧ IsPrologue removed (stripPrologue source) := by
  obtain ⟨rest, hrest⟩ := hshort
  have hstatement : ¬ startsFileStatement (trimStart rest) = true := fun h => hcut ⟨rest, hrest.symm, h⟩
  have hstrip : stripPrologue source = behindTag source := by
    have h := dropFileComment_short rest
    rwa [hrest, if_neg hstatement] at h
  obtain ⟨mark, tag, hmark, htag, hsource⟩ := exists_front source
  refine ⟨mark ++ tag, ?_, mark, tag, [], by rw [List.append_nil], hmark, ?_, Or.inl rfl⟩
  · rw [hstrip, List.append_assoc]
    exact hsource
  · rwa [hstrip]

/-- **What is taken off the start of a file.** It is a prologue if and only if the file comment is not cut short. If the
opening sign of the comment is no end sign as well, then no longer prologue could have been taken off. -/
theorem stripPrologue_takes_prologue_iff (source : Text) : ∃ removed, source = removed ++ stripPrologue source ∧
    (IsPrologue removed (stripPrologue source) ↔ ¬ CutShort source) ∧
    (¬ ofString "/*/" <+: behindTag source → ∀ removed' rest, source = removed' ++ rest → IsPrologue removed' rest →
      removed' <+: removed) := by
  by_cases hcut : CutShort source
  · obtain ⟨front, row, -, -, hsource⟩ := hcut.exists_removed
    refine ⟨_, hsource, iff_of_false (not_isPrologue_of_cutShort hcut hsource) (not_not.mpr hcut), fun hshort => ?_⟩
    obtain ⟨rest, hrest, -⟩ := hcut
    exact absurd ⟨rest, hrest.symm⟩ hshort
  · by_cases hshort : ofString "/*/" <+: behindTag source
    · obtain ⟨removed, hremoved, hprologue⟩ := exists_prologue_short hshort hcut
      exact ⟨removed, hremoved, iff_of_true hprologue hcut, fun h => absurd hshort h⟩
    · obtain ⟨removed, hremoved, hprologue⟩ := exists_prologue hshort
      refine ⟨removed, hremoved, iff_of_true hprologue hcut, fun _ removed' rest hsource h => ?_⟩
      obtain ⟨more, hmore⟩ := stripPrologue_suffix hshort h hsource
      have hparts : removed' ++ more ++ stripPrologue source = removed ++ stripPrologue source := by
        rw [List.append_assoc, hmore, ← hsource, ← hremoved]
      exact ⟨more, List.append_cancel_right hparts⟩

/-- A byte-order mark, a tag in capitals and a comment with stars at its ends: what is taken off is a prologue. -/
theorem stripPrologue_takes_prologue_sample :
    let source := byteOrderMark ++ ofString "<?PHP\n/*** License **/\n\nnamespace A;\n"
    stripPrologue source = ofString "namespace A;\n" ∧
      ∃ removed, source = removed ++ stripPrologue source ∧ IsPrologue removed (stripPrologue source) ∧
        ∀ removed' rest, source = removed' ++ rest → IsPrologue removed' rest → removed' <+: removed := by
  intro source
  have hshort : ¬ ofString "/*/" <+: behindTag source := by decide +kernel
  obtain ⟨removed, hremoved, hprologue, hlongest⟩ := stripPrologue_takes_prologue_iff source
  refine ⟨by decide +kernel, removed, hremoved, hprologue.mpr fun ⟨rest, hrest, _⟩ => hshort ⟨rest, hrest.symm⟩, ?_⟩
  exact hlongest hshort

/-- **A comment can be cut short**: here it holds the word `namespace` behind its first slash. Its opening sign is taken
off alone, although the comment is complete and a statement follows it. -/
theorem comment_cut_short :
    let source := ofString "<?php\n/*/ namespace of old */\nnamespace A;\n"
    stripPrologue source = ofString "namespace of old */\nnamespace A;\n" ∧
      (¬ ∃ removed, source = removed ++ stripPrologue source ∧ IsPrologue removed (stripPrologue source)) ∧
      IsPrologue (ofString "<?php\n/*/ namespace of old */\n") (ofString "namespace A;\n") := by
  intro source
  have hcut : CutShort source := ⟨ofString " namespace of old */\nnamespace A;\n", by decide +kernel, by decide +kernel⟩
  refine ⟨by decide +kernel, fun ⟨removed, hremoved, h⟩ => not_isPrologue_of_cutShort hcut hremoved h, ?_⟩
  have hline : IsRow blanks [0x0A] := ⟨[[0x0A]], by decide +kernel, rfl⟩
  refine ⟨[], ofString "<?php\n", ofString "/*/ namespace of old */\n", rfl, Or.inl rfl, Or.inr ?_, Or.inr ?_⟩
  · exact ⟨[], ofString "<?php", [0x0A], rfl, .nil blanks, rfl, hline, by simp⟩
  · exact ⟨ofString "/*/ namespace of old */", [0x0A], rfl, ⟨ofString "/ namespace of old ", rfl, by decide +kernel⟩,
      hline, by decide +kernel⟩

end Polyfill.Header
