import Polyfill.Proofs.Mapping.Views

/-! # Moved namespaces after a row of registrations

A registration takes effect if it changes its namespace and none before it did. The moves hold exactly these
registrations, in their order. A registration is refused, and then changes nothing, if another target is stored; one of
equal sides is accepted even then, since it asks for nothing. A lookup takes the longest stored namespace that contains
the one looked up, so what it finds depends on the stored pairs alone and not on their order.

* `FirstChange`: the registrations of a row that take effect.
* `NamespaceMoves.mem_insertAll_iff`, `NamespaceMoves.pairwise_insertAll`: the stored pairs and their order.
* `NamespaceMoves.insert_eq_false_iff`: when a registration is refused.
* `NamespaceMoves.move?_congr`: a lookup depends on the stored pairs alone.
* `registered_moves`: all of this for any row of registrations. -/

namespace Polyfill.Mapping

/-! ### The registrations that take effect -/

/-- **A registration that takes effect**: it changes its namespace, and those before it leave the namespace as it is. -/
def FirstChange (ps : List (Text × Text)) (p : Text × Text) : Prop :=
  ∃ before after, ps = before ++ p :: after ∧ p.1 ≠ p.2 ∧ ∀ q ∈ before, q.1 = p.1 → q.2 = p.1

/-- No namespace gets two targets other than itself. -/
def Consistent (ps : List (Text × Text)) : Prop :=
  ∀ p ∈ ps, ∀ q ∈ ps, p.1 = q.1 → p.1 ≠ p.2 → q.1 ≠ q.2 → p.2 = q.2

instance (ps : List (Text × Text)) : Decidable (Consistent ps) :=
  inferInstanceAs (Decidable (∀ p ∈ ps, ∀ q ∈ ps, _ → _ → _ → _))

theorem FirstChange.mem {ps : List (Text × Text)} {p : Text × Text} (h : FirstChange ps p) : p ∈ ps := by
  obtain ⟨before, after, rfl, -, -⟩ := h
  simp

theorem FirstChange.ne {ps : List (Text × Text)} {p : Text × Text} (h : FirstChange ps p) : p.1 ≠ p.2 := by
  obtain ⟨before, after, -, hne, -⟩ := h
  exact hne

theorem findSome?_change_eq_some_iff {ps : List (Text × Text)} {old new : Text} :
    ps.findSome? (change old) = some new ↔ FirstChange ps (old, new) := by
  rw [List.findSome?_eq_some_iff, FirstChange]
  simp only [change_eq_some_iff, change_eq_none_iff]
  constructor
  · rintro ⟨before, p, after, rfl, ⟨rfl, hne⟩, hbefore⟩
    exact ⟨before, after, rfl, Ne.symm hne, hbefore⟩
  · rintro ⟨before, after, rfl, hne, hbefore⟩
    exact ⟨before, (old, new), after, rfl, ⟨rfl, Ne.symm hne⟩, hbefore⟩

theorem Consistent.firstChange_iff {ps : List (Text × Text)} (h : Consistent ps) {p : Text × Text} :
    FirstChange ps p ↔ p ∈ ps ∧ p.1 ≠ p.2 := by
  constructor
  · rintro ⟨before, after, rfl, hne, -⟩
    exact ⟨by simp, hne⟩
  · rintro ⟨hp, hne⟩
    cases hfirst : ps.findSome? (change p.1) with
    | none => exact absurd (change_eq_none_iff.mp (List.findSome?_eq_none_iff.mp hfirst p hp) rfl) (Ne.symm hne)
    | some new =>
      have hchange := findSome?_change_eq_some_iff.mp hfirst
      have hnew : p.2 = new := h p hp _ hchange.mem rfl hne hchange.ne
      rwa [← hnew] at hchange

namespace NamespaceMoves

/-! ### The stored pairs -/

/-- **The moves hold the registrations that take effect.** -/
theorem mem_insertAll_iff {ps : List (Text × Text)} {p : Text × Text} :
    p ∈ (insertAll {} ps).pairs ↔ FirstChange ps p := by
  have hkeyed : (insertAll {} ps).Keyed := keyed_insertAll (m := {}) List.nodup_nil ps
  rw [hkeyed.mem_iff, target?_insertAll, ← findSome?_change_eq_some_iff]
  rfl

theorem insertAll_snoc (m : NamespaceMoves) (ps : List (Text × Text)) (p : Text × Text) :
    m.insertAll (ps ++ [p]) = ((m.insertAll ps).insert p.1 p.2).2 := by
  rw [insertAll, insertAll, List.foldl_append, List.foldl_cons, List.foldl_nil]

theorem insert_cases (m : NamespaceMoves) (p : Text × Text) :
    (m.insert p.1 p.2).2 = m ∨
      p.1 ≠ p.2 ∧ m.target? p.1 = none ∧ (m.insert p.1 p.2).2 = ⟨m.pairs ++ [p]⟩ := by
  rw [NamespaceMoves.insert]
  split
  · exact Or.inl rfl
  · next hne =>
    split
    · exact Or.inl rfl
    · next hnone => exact Or.inr ⟨hne, hnone, rfl⟩

theorem not_mem_of_target?_eq_none {ps : List (Text × Text)} {p : Text × Text} (hne : p.1 ≠ p.2)
    (h : (insertAll {} ps).target? p.1 = none) : p ∉ ps := by
  rw [target?_insertAll, Option.or_eq_none_iff] at h
  exact fun hp => hne (change_eq_none_iff.mp (List.findSome?_eq_none_iff.mp h.2 p hp) rfl).symm

/-- **The stored pairs stand in the order in which they were accepted**: that of their first places in the row. -/
theorem pairwise_insertAll (ps : List (Text × Text)) :
    (insertAll {} ps).pairs.Pairwise fun p q => ps.idxOf p < ps.idxOf q := by
  induction ps using List.reverseRecOn with
  | nil => exact List.Pairwise.nil
  | append_singleton ps p ih =>
    -- the pairs stored so far are found where they were found before
    have hplace : ∀ q ∈ (insertAll {} ps).pairs, (ps ++ [p]).idxOf q = ps.idxOf q :=
      fun q hq => List.idxOf_append_of_mem (mem_insertAll_iff.mp hq).mem
    have hold : (insertAll {} ps).pairs.Pairwise fun a b => (ps ++ [p]).idxOf a < (ps ++ [p]).idxOf b :=
      ih.imp_of_mem fun ha hb hab => by rwa [hplace _ ha, hplace _ hb]
    rw [insertAll_snoc]
    rcases insert_cases (insertAll {} ps) p with hsame | ⟨hne, hnone, hstored⟩
    · rwa [hsame]
    · rw [hstored, List.pairwise_append]
      refine ⟨hold, List.pairwise_singleton .., fun q hq x hx => ?_⟩
      have hlast : (ps ++ [p]).idxOf p = ps.length := by
        rw [List.idxOf_append_of_notMem (not_mem_of_target?_eq_none hne hnone), List.idxOf_cons_self, Nat.add_zero]
      rw [List.mem_singleton.mp hx, hplace q hq, hlast]
      exact List.idxOf_lt_length_of_mem (mem_insertAll_iff.mp hq).mem

/-! ### Refused registrations -/

/-- **A registration is refused if another target is stored.** One of equal sides never is. -/
theorem insert_eq_false_iff {m : NamespaceMoves} {old new : Text} :
    (m.insert old new).1 = false ↔ old ≠ new ∧ ∃ stored, m.target? old = some stored ∧ stored ≠ new := by
  rw [NamespaceMoves.insert]
  split
  · next heq => simp [heq]
  · next hne =>
    cases hstored : m.target? old with
    | none => simp
    | some stored => simp [hne]

theorem insert_of_refused {m : NamespaceMoves} {old new : Text} (h : (m.insert old new).1 = false) :
    (m.insert old new).2 = m := by
  rcases m.insert_cases (old, new) with hsame | ⟨-, hnone, -⟩
  · exact hsame
  · obtain ⟨-, stored, hstored, -⟩ := insert_eq_false_iff.mp h
    rw [hnone] at hstored
    cases hstored

/-! ### Lookups -/

/-- **What a lookup finds**, by the longest stored namespace that contains the one looked up. -/
theorem move?_eq_some_iff_contains {m : NamespaceMoves} (hm : m.Keyed) {ns target : Text} :
    m.move? ns = some target ↔ ∃ old new rest, (old, new) ∈ m.pairs ∧ Name.Contains old ns ∧
      (∀ p ∈ m.pairs, Name.Contains p.1 ns → p.1.length ≤ old.length) ∧ ns = old ++ rest ∧
      target = if new = [] then rest.dropWhile (· == Name.separator) else new ++ rest := by
  have hresult : ∀ old new rest, Match.result ⟨old, new, rest⟩ =
      if new = [] then rest.dropWhile (· == Name.separator) else new ++ rest := by
    intro old new rest
    rw [Match.result]
    simp only [List.isEmpty_iff]
  rw [move?_eq_some_iff hm]
  constructor
  · rintro ⟨old, new, rest, hp, hw, hmax, rfl⟩
    obtain ⟨hns, hcontains⟩ := Name.within?_eq_some_iff_contains.mp hw
    refine ⟨old, new, rest, hp, hcontains, fun p hp' hc => ?_, hns, hresult old new rest⟩
    obtain ⟨r, hr⟩ := Name.exists_within?_iff.mpr hc
    exact hmax p hp' r hr
  · rintro ⟨old, new, rest, hp, hcontains, hmax, hns, rfl⟩
    exact ⟨old, new, rest, hp, Name.within?_eq_some_iff_contains.mpr ⟨hns, hcontains⟩,
      fun p hp' r hr => hmax p hp' (Name.exists_within?_iff.mp ⟨r, hr⟩), (hresult old new rest).symm⟩

/-- **What a lookup finds depends on the stored pairs alone**, not on their order. -/
theorem move?_congr {m m' : NamespaceMoves} (hm : m.Keyed) (hm' : m'.Keyed)
    (h : ∀ p, p ∈ m.pairs ↔ p ∈ m'.pairs) (ns : Text) : m.move? ns = m'.move? ns := by
  refine Option.ext fun target => ?_
  simp only [move?_eq_some_iff hm, move?_eq_some_iff hm', h]

end NamespaceMoves

open NamespaceMoves

/-- **The moves after any row of registrations.** They hold exactly the registrations that take effect, each namespace
once, in the order in which they were accepted. A further registration is refused if and only if it changes its
namespace and another target is stored for that, and then it changes nothing. A lookup finds nothing if and only if no
stored namespace contains the one looked up; otherwise it gives the new name of the longest one that does, with the
rest behind it, or the rest without its leading separators if the new name is empty. The registrations of a consistent
row can be made in any order. -/
theorem registered_moves (ps : List (Text × Text)) :
    let m := NamespaceMoves.insertAll {} ps
    ((∀ p, p ∈ m.pairs ↔ FirstChange ps p) ∧ (m.pairs.map Prod.fst).Nodup ∧
      m.pairs.Pairwise fun p q => ps.idxOf p < ps.idxOf q) ∧
    (∀ old new, ((m.insert old new).1 = false ↔
        old ≠ new ∧ ∃ stored, (old, stored) ∈ m.pairs ∧ stored ≠ new) ∧
      ((m.insert old new).1 = false → (m.insert old new).2 = m)) ∧
    (∀ ns, (m.move? ns = none ↔ ∀ p ∈ m.pairs, ¬ Name.Contains p.1 ns) ∧
      ∀ target, m.move? ns = some target ↔ ∃ old new rest, (old, new) ∈ m.pairs ∧ Name.Contains old ns ∧
        (∀ p ∈ m.pairs, Name.Contains p.1 ns → p.1.length ≤ old.length) ∧ ns = old ++ rest ∧
        target = if new = [] then rest.dropWhile (· == Name.separator) else new ++ rest) ∧
    ∀ qs, ps.Perm qs → Consistent ps → ∀ ns, (NamespaceMoves.insertAll {} qs).move? ns = m.move? ns := by
  intro m
  have hkeyed : ∀ qs, (NamespaceMoves.insertAll {} qs).Keyed := fun qs => keyed_insertAll (m := {}) List.nodup_nil qs
  refine ⟨⟨fun p => mem_insertAll_iff, hkeyed ps, pairwise_insertAll ps⟩, fun old new => ⟨?_, insert_of_refused⟩,
    fun ns => ⟨?_, fun target => ?_⟩, fun qs hperm hps ns => ?_⟩
  · simp only [insert_eq_false_iff, (hkeyed ps).mem_iff, m]
  · simp only [move?_eq_none_iff, Name.within?_eq_none_iff]
  · exact move?_eq_some_iff_contains (hkeyed ps)
  · have hqs : Consistent qs := fun p hp q hq => hps p (hperm.mem_iff.mpr hp) q (hperm.mem_iff.mpr hq)
    refine move?_congr (hkeyed qs) (hkeyed ps) (fun p => ?_) ns
    rw [mem_insertAll_iff, mem_insertAll_iff, hqs.firstChange_iff, hps.firstChange_iff, hperm.mem_iff]

/-- Three registrations, of which the last asks for nothing, and the same in reverse order. -/
theorem registered_moves_sample :
    let ps : List (Text × Text) := [(.ofString "A", .ofString "B"), (.ofString "A\\Sub", []),
      (.ofString "A", .ofString "A")]
    ps.Perm ps.reverse ∧ Consistent ps ∧
      (∀ ns, (NamespaceMoves.insertAll {} ps.reverse).move? ns = (NamespaceMoves.insertAll {} ps).move? ns) ∧
      (NamespaceMoves.insertAll {} ps).move? (.ofString "A\\Sub\\C") = some (.ofString "C") ∧
      (NamespaceMoves.insertAll {} ps).move? (.ofString "A\\Suburb") = some (.ofString "B\\Suburb") := by
  intro ps
  have hperm : ps.Perm ps.reverse := ps.reverse_perm.symm
  have hps : Consistent ps := by decide
  exact ⟨hperm, hps, (registered_moves ps).2.2.2 _ hperm hps, by decide, by decide⟩

/-- **A registration of equal sides is accepted though another target is stored.** -/
theorem equal_sides_accepted :
    let a := Text.ofString "A"
    let b := Text.ofString "B"
    let m := NamespaceMoves.insertAll {} [(a, b)]
    (a, b) ∈ m.pairs ∧ b ≠ a ∧ (m.insert a a).1 = true := by
  decide

end Polyfill.Mapping
