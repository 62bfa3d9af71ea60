import Polyfill.Proofs.Name

/-! # Names of the language

A name of the language is a row of segments with single separators between them, and each segment is a row of bytes of
identifiers. So both neighbours of a separator are such bytes. The canonical form of a name of the language has no
separator at either end; it can still have white space there, since some white-space characters are no ASCII characters
and may stand in an identifier.

* `Proper`: the names of the language, by their segments.
* `proper_append_iff`: a separator joins two names.
* `Proper.around_separator`: what stands around a separator.
* `Proper.normalize_normalize_iff`: when the canonical form of a name is its own canonical form. -/

namespace Polyfill.Name

/-- The segments between the separators. -/
def segments : Text → List Text
  | [] => [[]]
  | b :: t =>
    if b = separator then [] :: segments t
    else
      match segments t with
      | [] => [[b]]
      | s :: ss => (b :: s) :: ss

/-- A segment of a name: bytes of an identifier, at least one. -/
def Segment (s : Text) : Prop := s ≠ [] ∧ ∀ b ∈ s, isIdentByte b = true

instance : DecidablePred Segment := fun s => inferInstanceAs (Decidable (s ≠ [] ∧ _))

/-- **A name as the language writes it**: segments with single separators between them. -/
def Proper (t : Text) : Prop := ∀ s ∈ segments t, Segment s

instance : DecidablePred Proper := fun t => inferInstanceAs (Decidable (∀ s ∈ segments t, Segment s))

theorem segments_ne_nil (t : Text) : segments t ≠ [] := by
  cases t with
  | nil => simp [segments]
  | cons b t =>
    rw [segments]
    split
    · simp
    · split <;> simp

theorem segments_append (u v : Text) : segments (u ++ separator :: v) = segments u ++ segments v := by
  induction u with
  | nil => simp [segments]
  | cons b u ih =>
    rw [List.cons_append, segments, segments]
    split
    · rw [ih, List.cons_append]
    · rw [ih]
      obtain ⟨s, ss, hu⟩ := List.exists_cons_of_ne_nil (segments_ne_nil u)
      rw [hu]
      rfl

theorem proper_append_iff {u v : Text} : Proper (u ++ separator :: v) ↔ Proper u ∧ Proper v := by
  rw [Proper, segments_append, List.forall_mem_append]
  rfl

theorem not_proper_nil : ¬ Proper [] := by decide

theorem isIdentByte_separator : isIdentByte separator = false := by decide

/-- A byte of a name is a separator or stands in a segment. -/
theorem eq_separator_or_mem_segment {t : Text} {b : UInt8} (hb : b ∈ t) :
    b = separator ∨ ∃ s ∈ segments t, b ∈ s := by
  induction t with
  | nil => cases hb
  | cons c t ih =>
    rw [segments]
    split
    · next hc =>
      rcases List.mem_cons.mp hb with rfl | hb
      · exact Or.inl hc
      · exact (ih hb).imp_right fun ⟨s, hs, hmem⟩ => ⟨s, List.mem_cons_of_mem _ hs, hmem⟩
    · obtain ⟨s, ss, ht⟩ := List.exists_cons_of_ne_nil (segments_ne_nil t)
      rw [ht] at ih ⊢
      rcases List.mem_cons.mp hb with rfl | hb
      · exact Or.inr ⟨b :: s, List.mem_cons_self .., List.mem_cons_self ..⟩
      · refine (ih hb).imp_right fun ⟨s', hs', hmem⟩ => ?_
        rcases List.mem_cons.mp hs' with rfl | hs'
        · exact ⟨c :: s', List.mem_cons_self .., List.mem_cons_of_mem _ hmem⟩
        · exact ⟨s', List.mem_cons_of_mem _ hs', hmem⟩

theorem Proper.ident_or_separator {t : Text} (h : Proper t) {b : UInt8} (hb : b ∈ t) :
    isIdentByte b = true ∨ b = separator := by
  rcases eq_separator_or_mem_segment hb with hsep | ⟨s, hs, hmem⟩
  · exact Or.inr hsep
  · exact Or.inl ((h s hs).2 b hmem)

theorem Proper.startsInIdent {t : Text} (h : Proper t) : startsInIdent t = true := by
  cases t with
  | nil => exact absurd h not_proper_nil
  | cons b t =>
    refine (h.ident_or_separator (List.mem_cons_self ..)).resolve_right ?_
    rintro rfl
    have hfront : Proper ([] ++ separator :: t) := h
    exact not_proper_nil (proper_append_iff.mp hfront).1

theorem Proper.endsInIdent {t : Text} (h : Proper t) : Polyfill.startsInIdent t.reverse = true := by
  rcases List.eq_nil_or_concat t with rfl | ⟨t, b, rfl⟩
  · exact absurd h not_proper_nil
  · rw [List.concat_eq_append] at h ⊢
    rw [List.reverse_append]
    refine (h.ident_or_separator (by simp)).resolve_right ?_
    rintro rfl
    exact not_proper_nil (proper_append_iff.mp h).2

/-- **Both neighbours of a separator are bytes of identifiers.** -/
theorem Proper.around_separator {u v : Text} (h : Proper (u ++ separator :: v)) :
    Polyfill.startsInIdent u.reverse = true ∧ Polyfill.startsInIdent v = true := by
  obtain ⟨hu, hv⟩ := proper_append_iff.mp h
  exact ⟨hu.endsInIdent, hv.startsInIdent⟩

theorem Proper.no_double_separator {t : Text} (h : Proper t) : ¬ [separator, separator] <:+: t := by
  rintro ⟨u, v, huv⟩
  have hname : Proper (u ++ separator :: (separator :: v)) := by
    rw [← huv] at h
    simpa using h
  have hnext : isIdentByte separator = true := hname.around_separator.2
  rw [isIdentByte_separator] at hnext
  cases hnext

/-! ### The canonical form of a name -/

theorem prefix_of_head?_dropLeadingSeparator {t : Text} (h : (dropLeadingSeparator t).head? = some separator) :
    [separator, separator] <+: t := by
  cases t with
  | nil => cases h
  | cons b t =>
    rw [dropLeadingSeparator] at h
    split at h
    · next hb =>
      obtain ⟨rest, rfl⟩ := List.head?_eq_some_iff.mp h
      rw [hb]
      exact ⟨rest, rfl⟩
    · next hb => exact absurd (Option.some.inj h) hb

theorem suffix_of_getLast?_dropTrailingSeparator {t : Text}
    (h : (dropTrailingSeparator t).getLast? = some separator) : [separator, separator] <:+ t := by
  rw [dropTrailingSeparator, List.getLast?_reverse] at h
  have := prefix_of_head?_dropLeadingSeparator h
  rwa [← List.reverse_suffix, List.reverse_reverse] at this

theorem Proper.normalize_ends {t : Text} (h : Proper t) :
    (normalize t).head? ≠ some separator ∧ (normalize t).getLast? ≠ some separator := by
  constructor
  · intro hhead
    obtain ⟨rest, hrest⟩ := List.head?_eq_some_iff.mp hhead
    have hpre : separator :: rest <+: dropLeadingSeparator t.trim := hrest ▸ prefix_dropTrailingSeparator _
    obtain ⟨more, hmore⟩ := hpre
    have hlead : (dropLeadingSeparator t.trim).head? = some separator := by rw [← hmore]; rfl
    exact h.no_double_separator ((prefix_of_head?_dropLeadingSeparator hlead).isInfix.trans (infix_trim t))
  · intro hlast
    have hsuffix := suffix_of_getLast?_dropTrailingSeparator hlast
    exact h.no_double_separator ((hsuffix.trans (suffix_dropLeadingSeparator _)).isInfix.trans (infix_trim t))

/-- **When the canonical form of a name of the language is its own canonical form**: if it has no white space at its
ends. -/
theorem Proper.normalize_normalize_iff {t : Text} (h : Proper t) :
    normalize (normalize t) = normalize t ↔ (normalize t).trim = normalize t := by
  obtain ⟨hhead, hlast⟩ := h.normalize_ends
  rw [normalize_eq_self_iff, and_iff_left ⟨hhead, hlast⟩]

end Polyfill.Name
