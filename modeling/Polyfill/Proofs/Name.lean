import Mathlib.Data.List.TakeWhile
import Polyfill.Name
import Polyfill.Proofs.Text.Blank

/-! # The parts of a qualified name

A name without separators is its own last segment, and its namespace is empty. Any other name is cut at its last
separator. Joining the parts gives the name back, unless all that stands before the last segment is one separator: the
namespace of such a name is empty as well, and a join below the empty namespace writes no separator.

* `simple_or_qualified`: the two forms of a name.
* `join_parts_eq_self_iff`: when the parts of a name give it back.
* `namespaceOf_eq_iff`: when two names with the same last segment lie in the same namespace.
* `within?_eq_some_iff`: what one namespace has below another.
* `Contains.or_contains`: of two namespaces that contain a third, one contains the other.
* `normalize_eq_self_iff`: the names that are their own canonical form.
* `Contains.normalize`: a name keeps the namespaces above it in its canonical form. -/

namespace Polyfill.Name

/-! ### The last separator -/

theorem separator_not_mem_shortName (t : Text) : separator ∉ shortName t := by
  rw [shortName, List.mem_reverse]
  intro h
  simpa using List.mem_takeWhile_imp h

theorem bne_separator_of_not_mem {t : Text} (h : separator ∉ t) : ∀ b ∈ t.reverse, (b != separator) = true := by
  intro b hb
  rw [bne_iff_ne]
  rintro rfl
  exact h (List.mem_reverse.mp hb)

theorem shortName_of_not_mem {t : Text} (h : separator ∉ t) : shortName t = t := by
  rw [shortName, List.takeWhile_eq_self_iff.mpr (bne_separator_of_not_mem h), List.reverse_reverse]

theorem namespaceOf_of_not_mem {t : Text} (h : separator ∉ t) : namespaceOf t = [] := by
  rw [namespaceOf, List.dropWhile_eq_nil_iff.mpr (bne_separator_of_not_mem h), List.drop_nil, List.reverse_nil]

theorem eq_append_of_mem {t : Text} (h : separator ∈ t) : t = namespaceOf t ++ separator :: shortName t := by
  have hne : t.reverse.dropWhile (· != separator) ≠ [] := by
    intro hnil
    simpa using List.dropWhile_eq_nil_iff.mp hnil separator (List.mem_reverse.mpr h)
  obtain ⟨b, rest, hcut⟩ := List.exists_cons_of_ne_nil hne
  have hb : b = separator := by
    have := List.dropWhile_get_zero_not (· != separator) t.reverse (List.length_pos_iff.mpr hne)
    simpa [hcut] using this
  have hrev := List.takeWhile_append_dropWhile (p := (· != separator)) (l := t.reverse)
  rw [hcut, hb] at hrev
  rw [namespaceOf, shortName, hcut, List.drop_succ_cons, List.drop_zero]
  have := congrArg List.reverse hrev
  rw [List.reverse_reverse] at this
  simpa using this.symm

theorem namespaceOf_append (ns : Text) {n : Text} (h : separator ∉ n) : namespaceOf (ns ++ separator :: n) = ns := by
  rw [namespaceOf, List.reverse_append, List.reverse_cons, List.append_assoc,
    List.dropWhile_append_of_pos (bne_separator_of_not_mem h)]
  simp

/-- **The two forms of a name.** -/
theorem simple_or_qualified (t : Text) :
    (namespaceOf t = [] ∧ shortName t = t) ∨ t = namespaceOf t ++ separator :: shortName t := by
  by_cases h : separator ∈ t
  · exact Or.inr (eq_append_of_mem h)
  · exact Or.inl ⟨namespaceOf_of_not_mem h, shortName_of_not_mem h⟩

/-- **When the parts of a name give it back**: always, unless the name is one separator with a segment behind it. -/
theorem join_parts_eq_self_iff (t : Text) :
    join (namespaceOf t) (shortName t) = t ↔ t ≠ separator :: shortName t := by
  rcases simple_or_qualified t with ⟨hns, hname⟩ | ht
  · rw [hns, hname, join, List.isEmpty_nil, if_pos rfl]
    simp
  · rw [join]
    split
    · next hns =>
      rw [List.isEmpty_iff] at hns
      rw [hns, List.nil_append] at ht
      constructor
      · intro h
        rw [← h] at ht
        exact absurd (congrArg List.length ht) (by simp [h])
      · exact fun h => absurd ht h
    · next hns =>
      refine iff_of_true ht.symm fun h => hns ?_
      rw [List.isEmpty_iff]
      exact List.append_left_eq_self.mp (ht.symm.trans h)

/-- **When two names with the same last segment lie in the same namespace**: one of them is the segment alone, and the
other has one separator in front of it. -/
theorem namespaceOf_eq_iff {s t n : Text} (hne : s ≠ t) (hs : shortName s = n) (ht : shortName t = n) :
    namespaceOf s = namespaceOf t ↔ (s = n ∧ t = separator :: n) ∨ (s = separator :: n ∧ t = n) := by
  constructor
  · intro hns
    rcases simple_or_qualified s with ⟨hs₁, hs₂⟩ | hs₁ <;> rcases simple_or_qualified t with ⟨ht₁, ht₂⟩ | ht₁
    · exact absurd (hs₂.symm.trans (hs.trans (ht.symm.trans ht₂))) hne
    · rw [← hns, hs₁, List.nil_append, ht] at ht₁
      exact Or.inl ⟨hs₂.symm.trans hs, ht₁⟩
    · rw [hns, ht₁, List.nil_append, hs] at hs₁
      exact Or.inr ⟨hs₁, ht₂.symm.trans ht⟩
    · rw [hns, hs, ← ht, ← ht₁] at hs₁
      exact absurd hs₁ hne
  · have hn : separator ∉ n := hs ▸ separator_not_mem_shortName s
    rintro (⟨rfl, rfl⟩ | ⟨rfl, rfl⟩)
    · exact (namespaceOf_of_not_mem hn).trans (namespaceOf_append [] hn).symm
    · exact (namespaceOf_append [] hn).trans (namespaceOf_of_not_mem hn).symm

/-! ### Containment -/

/-- What follows a namespace in one that contains it is empty or starts with a separator. -/
theorem within?_eq_some_iff {ns root rest : Text} :
    within? ns root = some rest ↔ ns = root ++ rest ∧ (rest = [] ∨ rest.head? = some separator) := by
  rw [within?]
  split
  · next hp =>
    obtain ⟨r, rfl⟩ := List.isPrefixOf_iff_prefix.mp hp
    rw [List.drop_left, List.append_cancel_left_eq]
    cases r with
    | nil => simp +contextual [eq_comm]
    | cons b r => grind
  · next hp =>
    simp only [reduceCtorEq, false_iff]
    rintro ⟨rfl, -⟩
    exact hp (List.isPrefixOf_iff_prefix.mpr (List.prefix_append root rest))

/-- **The namespace `root` contains `ns`**: it is `ns` itself, or is followed there by a separator. -/
def Contains (root ns : Text) : Prop := ns = root ∨ root ++ [separator] <+: ns

instance (root ns : Text) : Decidable (Contains root ns) := inferInstanceAs (Decidable (_ ∨ _))

theorem contains_append_iff {root rest : Text} :
    Contains root (root ++ rest) ↔ rest = [] ∨ rest.head? = some separator := by
  rw [Contains, List.append_right_eq_self, List.prefix_append_right_inj, List.head?_eq_some_iff]
  exact or_congr_right ⟨fun ⟨r, h⟩ => ⟨r, h.symm⟩, fun ⟨r, h⟩ => ⟨r, h.symm⟩⟩

theorem within?_eq_some_iff_contains {ns root rest : Text} :
    within? ns root = some rest ↔ ns = root ++ rest ∧ Contains root ns := by
  rw [within?_eq_some_iff]
  refine and_congr_right fun h => ?_
  rw [h, contains_append_iff]

theorem exists_within?_iff {ns root : Text} : (∃ rest, within? ns root = some rest) ↔ Contains root ns := by
  constructor
  · rintro ⟨rest, h⟩
    exact (within?_eq_some_iff_contains.mp h).2
  · intro h
    have hprefix : root <+: ns := by
      rcases h with rfl | h
      · exact List.prefix_rfl
      · exact (List.prefix_append root [separator]).trans h
    obtain ⟨rest, rfl⟩ := hprefix
    exact ⟨rest, within?_eq_some_iff_contains.mpr ⟨rfl, h⟩⟩

theorem within?_eq_none_iff {ns root : Text} : within? ns root = none ↔ ¬ Contains root ns := by
  rw [← exists_within?_iff, ← Option.isSome_iff_exists, Bool.not_eq_true, Option.isSome_eq_false_iff,
    Option.isNone_iff_eq_none]

theorem within?_self (ns : Text) : within? ns ns = some [] :=
  within?_eq_some_iff.mpr ⟨(List.append_nil ns).symm, Or.inl rfl⟩

theorem length_le_of_within? {ns root rest : Text} (h : within? ns root = some rest) : root.length ≤ ns.length := by
  rw [(within?_eq_some_iff.mp h).1, List.length_append]
  exact Nat.le_add_right ..

theorem eq_of_within? {ns root root' rest rest' : Text} (h : within? ns root = some rest)
    (h' : within? ns root' = some rest') (hlen : root.length = root'.length) : root = root' ∧ rest = rest' :=
  List.append_inj ((within?_eq_some_iff.mp h).1.symm.trans (within?_eq_some_iff.mp h').1) hlen

/-- **Of two namespaces that contain a third, one contains the other.** -/
theorem Contains.or_contains {a b ns : Text} (ha : Contains a ns) (hb : Contains b ns) :
    Contains a b ∨ Contains b a := by
  obtain ⟨x, hx⟩ := exists_within?_iff.mpr ha
  obtain ⟨y, hy⟩ := exists_within?_iff.mpr hb
  obtain ⟨hax, hxs⟩ := within?_eq_some_iff.mp hx
  obtain ⟨hby, hys⟩ := within?_eq_some_iff.mp hy
  -- the rest behind the shorter one starts where the longer one goes on
  rcases List.append_eq_append_iff.mp (hax.symm.trans hby) with ⟨w, rfl, rfl⟩ | ⟨w, rfl, rfl⟩
  · refine Or.inl (contains_append_iff.mpr ?_)
    cases w with
    | nil => exact Or.inl rfl
    | cons c w => exact Or.inr (by simpa using hxs)
  · refine Or.inr (contains_append_iff.mpr ?_)
    cases w with
    | nil => exact Or.inl rfl
    | cons c w => exact Or.inr (by simpa using hys)

/-! ### Canonical names -/

theorem infix_trim (t : Text) : t.trim <:+: t := by
  obtain ⟨us, vs, -, -, ht⟩ := Text.exists_trim t
  exact ⟨us, vs, by rw [List.append_assoc, ← ht]⟩

theorem suffix_dropLeadingSeparator (t : Text) : dropLeadingSeparator t <:+ t := by
  cases t with
  | nil => exact List.suffix_rfl
  | cons b t =>
    rw [dropLeadingSeparator]
    split
    · exact List.suffix_cons b t
    · exact List.suffix_rfl

theorem dropLeadingSeparator_eq_self_iff {t : Text} :
    dropLeadingSeparator t = t ↔ t.head? ≠ some separator := by
  cases t with
  | nil => simp [dropLeadingSeparator]
  | cons b t => by_cases hb : b = separator <;> simp [dropLeadingSeparator, hb]

theorem prefix_dropTrailingSeparator (t : Text) : dropTrailingSeparator t <+: t := by
  rw [dropTrailingSeparator, ← List.reverse_suffix, List.reverse_reverse]
  exact suffix_dropLeadingSeparator _

theorem dropTrailingSeparator_eq_self_iff {t : Text} :
    dropTrailingSeparator t = t ↔ t.getLast? ≠ some separator := by
  rw [dropTrailingSeparator, List.reverse_eq_iff, dropLeadingSeparator_eq_self_iff, List.head?_reverse]

/-- **The names that are their own canonical form** have neither white space nor a separator at their ends. -/
theorem normalize_eq_self_iff {t : Text} :
    normalize t = t ↔ t.trim = t ∧ t.head? ≠ some separator ∧ t.getLast? ≠ some separator := by
  rw [← dropLeadingSeparator_eq_self_iff, ← dropTrailingSeparator_eq_self_iff]
  constructor
  · intro h
    -- each step takes bytes off, so none of them does if the name stays as it is
    have hlead : t.Sublist (dropLeadingSeparator t.trim) := by
      have := (prefix_dropTrailingSeparator (dropLeadingSeparator t.trim)).sublist
      rwa [← normalize, h] at this
    have htrim : t.trim = t :=
      (infix_trim t).sublist.antisymm (hlead.trans (suffix_dropLeadingSeparator _).sublist)
    rw [htrim] at hlead
    have hself := (suffix_dropLeadingSeparator t).sublist.antisymm hlead
    refine ⟨htrim, hself, ?_⟩
    rwa [normalize, htrim, hself] at h
  · rintro ⟨htrim, hlead, htrail⟩
    rw [normalize, htrim, hlead, htrail]

theorem getLast?_ne_separator {t : Text} (h : shortName t ≠ []) : t.getLast? ≠ some separator := by
  intro hlast
  refine h ?_
  rw [← List.head?_reverse] at hlast
  obtain ⟨rest, hrest⟩ := List.head?_eq_some_iff.mp hlast
  rw [shortName, hrest, List.takeWhile_cons, if_neg (by simp), List.reverse_nil]

theorem not_prefix_concat_of_trim {root u : Text} (hroot : root.trim = root) (hu : u ∈ blanks) {ns : Text}
    (h : root ++ [separator] <+: ns) : ¬ u <+: ns := by
  have hsep : separator ∉ u := IsRow.not_mem ⟨[u], by simpa using hu, by simp⟩ (by decide) (by decide)
  intro hp
  rcases List.prefix_or_prefix_of_prefix hp h with hlt | hge
  · rcases List.prefix_concat_iff.mp hlt with heq | hpre
    · exact hsep (by simp [heq])
    · exact Text.not_prefix_of_trim_eq_self hroot hu hpre
  · exact hsep (hge.subset (by simp))

/-- Trimming a name keeps a namespace above it that has no white space at its ends. -/
theorem prefix_trim {root ns : Text} (hroot : root.trim = root) (h : root ++ [separator] <+: ns) :
    root ++ [separator] <+: ns.trim := by
  obtain ⟨us, vs, ⟨units, hunits, rfl⟩, hvs, hns⟩ := Text.exists_trim ns
  have hnil : units = [] := by
    cases units with
    | nil => rfl
    | cons u units =>
      refine absurd ?_ (not_prefix_concat_of_trim hroot (hunits u (List.mem_cons_self ..)) h)
      rw [hns, List.flatten_cons, List.append_assoc]
      exact List.prefix_append ..
  rw [hnil, List.flatten_nil, List.nil_append] at hns
  have htrim : ns.trim <+: ns := ⟨vs, hns.symm⟩
  rcases List.prefix_or_prefix_of_prefix h htrim with hle | hlt
  · exact hle
  · rcases List.prefix_concat_iff.mp hlt with heq | ⟨w, hw⟩
    · rw [heq]
    · -- what trimming takes off at the end would hold the separator
      rw [hns, ← hw, List.append_assoc, List.prefix_append_right_inj] at h
      have hsep : separator ∈ vs := h.subset (by simp)
      exact absurd hsep (hvs.not_mem (by decide) (by decide))

theorem dropLeadingSeparator_of_prefix {root t : Text} (hne : root ≠ []) (hhead : root.head? ≠ some separator)
    (h : root <+: t) : dropLeadingSeparator t = t := by
  obtain ⟨rest, rfl⟩ := h
  rw [dropLeadingSeparator_eq_self_iff, List.head?_append_of_ne_nil _ hne]
  exact hhead

theorem dropTrailingSeparator_concat (t : Text) : dropTrailingSeparator (t ++ [separator]) = t := by
  rw [dropTrailingSeparator, List.reverse_append]
  simp [dropLeadingSeparator]

/-- A name in canonical form still contains the namespaces in canonical form that contained it before. -/
theorem Contains.normalize {root ns : Text} (hne : root ≠ []) (hroot : normalize root = root)
    (h : Contains root ns) : Contains root (normalize ns) := by
  obtain ⟨htrim, hhead, -⟩ := normalize_eq_self_iff.mp hroot
  rcases h with rfl | h
  · exact Or.inl hroot
  · have hprefix := prefix_trim htrim h
    rw [Name.normalize, dropLeadingSeparator_of_prefix hne hhead ((List.prefix_append ..).trans hprefix)]
    obtain ⟨rest, hrest⟩ := hprefix
    rcases List.eq_nil_or_concat rest with rfl | ⟨rest, b, rfl⟩
    · rw [← hrest, List.append_nil, dropTrailingSeparator_concat]
      exact Or.inl rfl
    · refine Or.inr ?_
      rw [← hrest, List.concat_eq_append, ← List.append_assoc]
      by_cases hb : b = separator
      · rw [hb, dropTrailingSeparator_concat]
        exact List.prefix_append ..
      · rw [dropTrailingSeparator_eq_self_iff.mpr (by rw [List.getLast?_concat]; simpa using hb), List.append_assoc]
        exact List.prefix_append ..

end Polyfill.Name
