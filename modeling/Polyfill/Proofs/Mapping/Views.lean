import Polyfill.Mapping.Views
import Polyfill.Proofs.Name

/-! # Registrations and lookups

Both views are filled by a row of registrations, of which those that leave a name as it is do not count. What the moves
hold for a namespace is the first of them that changes it: later ones are refused. A later new name of a class takes the
place of an earlier one. A lookup in the
moves of namespaces finds the longest registered namespace that contains the one looked up; two registered ones never
have the same length there, since both would be the same part of it.

* `change`: what a registration makes of a name.
* `NamespaceMoves.target?_insertAll`, `ClassRenames.get?_insertAll`: what the views hold after a row of registrations.
* `NamespaceMoves.keyed_insertAll`: no namespace is registered twice.
* `NamespaceMoves.move?_eq_none_iff`, `NamespaceMoves.move?_eq_some_iff`: what a lookup finds. -/

namespace Polyfill.Mapping

/-! ### Rows of registrations -/

theorem foldl_eq_or_findSome? {σ α β : Type} {step : σ → α → σ} (view : σ → Option β) {answer : α → Option β}
    (hstep : ∀ s a, view (step s a) = (view s).or (answer a)) (s : σ) (l : List α) :
    view (l.foldl step s) = (view s).or (l.findSome? answer) := by
  induction l generalizing s with
  | nil => simp
  | cons a l ih =>
    rw [List.foldl_cons, ih, hstep, Option.or_assoc, List.findSome?_cons]
    cases answer a <;> simp

theorem nodup_map_snoc_iff {α β : Type} {key : α → β} {l : List α} {a : α} :
    ((l ++ [a]).map key).Nodup ↔ (l.map key).Nodup ∧ key a ∉ l.map key := by
  rw [List.map_append, List.map_singleton, List.nodup_append_comm, List.singleton_append, List.nodup_cons, and_comm]

/-- The new name that a registration gives to `old`. -/
def change (old : Text) (p : Text × Text) : Option Text := if p.1 = old ∧ p.2 ≠ old then some p.2 else none

theorem change_eq_some_iff {old new : Text} {p : Text × Text} :
    change old p = some new ↔ p = (old, new) ∧ new ≠ old := by
  obtain ⟨a, b⟩ := p
  rw [change]
  split
  · next h =>
    obtain ⟨rfl, hb⟩ := h
    simp only [Option.some.injEq, Prod.mk.injEq, true_and]
    exact ⟨fun h => ⟨h, h ▸ hb⟩, And.left⟩
  · next h =>
    simp only [reduceCtorEq, Prod.mk.injEq, false_iff]
    rintro ⟨⟨rfl, rfl⟩, hb⟩
    exact h ⟨rfl, hb⟩

theorem change_eq_none_iff {old : Text} {p : Text × Text} : change old p = none ↔ (p.1 = old → p.2 = old) := by
  simp [change]

theorem lookup_cons_eq (name : Text) (p : Text × Text) (ps : List (Text × Text)) :
    (p :: ps).lookup name = if name = p.1 then some p.2 else ps.lookup name := by
  obtain ⟨a, b⟩ := p
  rw [List.lookup_cons]
  by_cases h : name = a
  · simp [h]
  · simp [h, beq_eq_false_iff_ne.mpr h]

theorem lookup_single (old : Text) {p : Text × Text} (hp : p.1 ≠ p.2) : List.lookup old [p] = change old p := by
  rw [lookup_cons_eq, List.lookup_nil, change]
  by_cases ho : old = p.1
  · rw [if_pos ho, if_pos ⟨ho.symm, ho ▸ hp.symm⟩]
  · rw [if_neg ho, if_neg fun h => ho h.1.symm]

theorem change_of_eq (old : Text) {p : Text × Text} (hp : p.1 = p.2) : change old p = none :=
  change_eq_none_iff.mpr fun h => hp.symm.trans h

/-! ### Renamed classes -/

namespace ClassRenames

/-- The renames after a row of registrations. -/
def insertAll (m : ClassRenames) (ps : List (Text × Text)) : ClassRenames :=
  ps.foldl (fun m p => m.insert p.1 p.2) m

theorem lookup_put (old new name : Text) (ps : List (Text × Text)) :
    (put old new ps).lookup name = if name = old then some new else ps.lookup name := by
  induction ps with
  | nil => rw [put, lookup_cons_eq]
  | cons p ps ih =>
    rw [put, lookup_cons_eq]
    split
    · next hp =>
      rw [lookup_cons_eq, hp]
      split <;> rfl
    · next hp =>
      rw [lookup_cons_eq, ih]
      by_cases h : name = old
      · rw [if_neg fun hname => hp (hname.symm.trans h), if_pos h, if_pos h]
      · rw [if_neg h, if_neg h]

theorem get?_insert (m : ClassRenames) (p : Text × Text) (old : Text) :
    (m.insert p.1 p.2).get? old = (change old p).or (m.get? old) := by
  rw [insert]
  split
  · next h => rw [change_of_eq old h, Option.none_or]
  · next h =>
    rw [get?, lookup_put, change]
    by_cases ho : old = p.1
    · simp [ho, Ne.symm h]
    · rw [if_neg ho, if_neg fun hp => ho hp.1.symm, Option.none_or, get?]

/-- What the renames hold after a row of registrations of different names. -/
theorem get?_insertAll {ps : List (Text × Text)} (hkeys : (ps.map Prod.fst).Nodup) {old new : Text} :
    (insertAll {} ps).get? old = some new ↔ (old, new) ∈ ps ∧ new ≠ old := by
  induction ps using List.reverseRecOn with
  | nil => simp [insertAll, get?]
  | append_singleton ps p ih =>
    obtain ⟨hkeys', hfree⟩ := nodup_map_snoc_iff.mp hkeys
    have hrun : insertAll {} (ps ++ [p]) = (insertAll {} ps).insert p.1 p.2 := by simp [insertAll]
    rw [hrun, get?_insert, List.mem_append, List.mem_singleton, or_and_right, ← ih hkeys']
    cases hchange : change old p with
    | none =>
      rw [Option.none_or, change_eq_none_iff] at *
      refine (or_iff_left ?_).symm
      rintro ⟨rfl, hne⟩
      exact hne (hchange rfl)
    | some target =>
      obtain ⟨rfl, hne⟩ := change_eq_some_iff.mp hchange
      have hnone : (insertAll {} ps).get? old ≠ some new := fun h =>
        hfree (List.mem_map.mpr ⟨_, ((ih hkeys').mp h).1, rfl⟩)
      rw [Option.some_or, or_iff_right hnone, Option.some_inj, Prod.mk.injEq, eq_self_iff_true, true_and]
      exact ⟨fun h => ⟨h.symm, h ▸ hne⟩, fun h => h.1.symm⟩

end ClassRenames

/-! ### Moved namespaces -/

namespace NamespaceMoves

/-- The moves after a row of registrations. -/
def insertAll (m : NamespaceMoves) (ps : List (Text × Text)) : NamespaceMoves :=
  ps.foldl (fun m p => (m.insert p.1 p.2).2) m

/-- No namespace is registered twice. -/
def Keyed (m : NamespaceMoves) : Prop := (m.pairs.map Prod.fst).Nodup

theorem target?_insert (m : NamespaceMoves) (p : Text × Text) (old : Text) :
    (m.insert p.1 p.2).2.target? old = (m.target? old).or (change old p) := by
  rw [insert]
  split
  · next h => rw [change_of_eq old h, Option.or_none]
  · next h =>
    split
    · next stored hstored =>
      by_cases ho : old = p.1
      · rw [ho, hstored, Option.some_or]
      · rw [change, if_neg (fun hp => ho hp.1.symm), Option.or_none]
    · rw [target?, target?, List.lookup_append, lookup_single old h]

theorem target?_insertAll (m : NamespaceMoves) (ps : List (Text × Text)) (old : Text) :
    (m.insertAll ps).target? old = (m.target? old).or (ps.findSome? (change old)) :=
  foldl_eq_or_findSome? (·.target? old) (fun m p => target?_insert m p old) m ps

theorem target?_eq_none_iff {m : NamespaceMoves} {old : Text} :
    m.target? old = none ↔ old ∉ m.pairs.map Prod.fst := by
  rw [target?, List.lookup_eq_none_iff]
  simp only [bne_iff_ne, List.mem_map, not_exists, not_and]
  exact ⟨fun h p hp he => h p hp he.symm, fun h p hp he => h p hp he.symm⟩

theorem Keyed.insert {m : NamespaceMoves} (h : m.Keyed) (old new : Text) : (m.insert old new).2.Keyed := by
  rw [NamespaceMoves.insert]
  split
  · exact h
  · split
    · exact h
    · next hnone => exact nodup_map_snoc_iff.mpr ⟨h, target?_eq_none_iff.mp hnone⟩

theorem keyed_insertAll {m : NamespaceMoves} (h : m.Keyed) (ps : List (Text × Text)) : (m.insertAll ps).Keyed := by
  induction ps generalizing m with
  | nil => exact h
  | cons p ps ih => exact ih (h.insert p.1 p.2)

theorem Keyed.mem_iff {m : NamespaceMoves} (h : m.Keyed) {old new : Text} :
    (old, new) ∈ m.pairs ↔ m.target? old = some new := by
  rw [target?]
  constructor
  · intro hmem
    cases hl : m.pairs.lookup old with
    | none => exact absurd (List.mem_map_of_mem hmem) (target?_eq_none_iff.mp hl)
    | some new' =>
      obtain ⟨l₁, l₂, hp, -⟩ := List.lookup_eq_some_iff.mp hl
      have hmem' : (old, new') ∈ m.pairs := by simp [hp]
      have := List.inj_on_of_nodup_map h hmem hmem' rfl
      simpa using this.symm
  · intro hl
    obtain ⟨l₁, l₂, hp, -⟩ := List.lookup_eq_some_iff.mp hl
    simp [hp]

/-! ### The longest match -/

/-- The best of the matches seen so far is a longest one. -/
def IsLongest (seen : List Match) : Option Match → Prop
  | none => seen = []
  | some best => best ∈ seen ∧ ∀ c ∈ seen, c.old.length ≤ best.old.length

theorem IsLongest.longer {seen : List Match} {best : Option Match} (h : IsLongest seen best) (c : Match) :
    IsLongest (seen ++ [c]) (longer best c) := by
  cases best with
  | none =>
    have hseen : seen = [] := h
    subst hseen
    simp [NamespaceMoves.longer, IsLongest]
  | some b =>
    obtain ⟨hb, hmax⟩ := h
    simp only [NamespaceMoves.longer]
    split
    · next hlt =>
      refine ⟨by simp, fun x hx => ?_⟩
      rcases List.mem_append.mp hx with hx | hx
      · exact (hmax x hx).trans hlt.le
      · rw [List.mem_singleton.mp hx]
    · next hge =>
      refine ⟨by simp [hb], fun x hx => ?_⟩
      rcases List.mem_append.mp hx with hx | hx
      · exact hmax x hx
      · rw [List.mem_singleton.mp hx]
        exact Nat.le_of_not_lt hge

theorem isLongest_foldl {seen : List Match} {best : Option Match} (h : IsLongest seen best) (cs : List Match) :
    IsLongest (seen ++ cs) (cs.foldl longer best) := by
  induction cs generalizing seen best with
  | nil => rwa [List.append_nil]
  | cons c cs ih =>
    rw [List.foldl_cons, ← List.singleton_append, ← List.append_assoc]
    exact ih (h.longer c)

theorem isLongest_longest (cs : List Match) : IsLongest cs (longest cs) :=
  isLongest_foldl (show IsLongest [] none from rfl) cs

theorem mem_candidates {m : NamespaceMoves} {ns : Text} {c : Match} :
    c ∈ m.candidates ns ↔ (c.old, c.new) ∈ m.pairs ∧ Name.within? ns c.old = some c.rest := by
  simp only [candidates, List.mem_filterMap, Option.map_eq_some_iff]
  constructor
  · rintro ⟨p, hp, rest, hw, rfl⟩
    exact ⟨hp, hw⟩
  · rintro ⟨hp, hw⟩
    exact ⟨_, hp, _, hw, rfl⟩

/-- A lookup finds nothing if no registered namespace contains the one looked up. -/
theorem move?_eq_none_iff {m : NamespaceMoves} {ns : Text} :
    m.move? ns = none ↔ ∀ p ∈ m.pairs, Name.within? ns p.1 = none := by
  have hlongest := isLongest_longest (m.candidates ns)
  have hnone : longest (m.candidates ns) = none ↔ m.candidates ns = [] := by
    cases hl : longest (m.candidates ns) with
    | none => rw [hl] at hlongest; exact iff_of_true rfl hlongest
    | some c => rw [hl] at hlongest; exact iff_of_false (by simp) (List.ne_nil_of_mem hlongest.1)
  rw [move?, Option.map_eq_none_iff, hnone, candidates, List.filterMap_eq_nil_iff]
  simp only [Option.map_eq_none_iff]

/-- **A lookup finds the longest registered namespace** that contains the one looked up. -/
theorem move?_eq_some_iff {m : NamespaceMoves} (hm : m.Keyed) {ns target : Text} :
    m.move? ns = some target ↔ ∃ old new rest, (old, new) ∈ m.pairs ∧ Name.within? ns old = some rest ∧
      (∀ p ∈ m.pairs, ∀ r, Name.within? ns p.1 = some r → p.1.length ≤ old.length) ∧
      target = Match.result ⟨old, new, rest⟩ := by
  have hlongest := isLongest_longest (m.candidates ns)
  rw [move?, Option.map_eq_some_iff]
  constructor
  · rintro ⟨c, hc, rfl⟩
    rw [hc] at hlongest
    obtain ⟨hp, hw⟩ := mem_candidates.mp hlongest.1
    exact ⟨c.old, c.new, c.rest, hp, hw, fun p hp r hr => hlongest.2 ⟨p.1, p.2, r⟩ (mem_candidates.mpr ⟨hp, hr⟩), rfl⟩
  · rintro ⟨old, new, rest, hp, hw, hmax, rfl⟩
    have hmem : ⟨old, new, rest⟩ ∈ m.candidates ns := mem_candidates.mpr ⟨hp, hw⟩
    cases hl : longest (m.candidates ns) with
    | none =>
      rw [hl] at hlongest
      exact absurd hlongest (List.ne_nil_of_mem hmem)
    | some c =>
      rw [hl] at hlongest
      refine ⟨c, rfl, congrArg Match.result ?_⟩
      obtain ⟨hcp, hcw⟩ := mem_candidates.mp hlongest.1
      -- both contain the namespace looked up and have one length, so they are the same registration
      obtain ⟨hold, hrest⟩ :=
        Name.eq_of_within? hcw hw (Nat.le_antisymm (hmax _ hcp _ hcw) (hlongest.2 _ hmem))
      have hpair : (c.old, c.new) = (old, new) := List.inj_on_of_nodup_map hm hcp hp hold
      obtain ⟨cold, cnew, crest⟩ := c
      cases hpair
      rw [← hrest]

theorem move?_of_target? {m : NamespaceMoves} (hm : m.Keyed) {ns new : Text} (h : m.target? ns = some new) :
    m.move? ns = some new := by
  refine (move?_eq_some_iff hm).mpr ⟨ns, new, [], hm.mem_iff.mpr h, Name.within?_self ns,
    fun p _ r hw => Name.length_le_of_within? hw, ?_⟩
  rw [Match.result]
  split
  · next hnew => simpa using hnew
  · simp

theorem result_ne {old new rest ns : Text} (hne : old ≠ new) (h : Name.within? ns old = some rest) :
    Match.result ⟨old, new, rest⟩ ≠ ns := by
  rw [(Name.within?_eq_some_iff.mp h).1, Match.result]
  dsimp only
  split
  · next hnew =>
    -- nothing takes the place of the old side, so the name gets shorter
    intro heq
    have hlen := congrArg List.length heq
    have hrest := (List.dropWhile_sublist (l := rest) (· == Name.separator)).length_le
    rw [List.length_append] at hlen
    have hold : old = [] := List.length_eq_zero_iff.mp (by omega)
    exact hne (hold.trans (List.isEmpty_iff.mp hnew).symm)
  · exact fun heq => hne (List.append_cancel_right heq).symm

/-- **No namespace moves to itself** if no pair has equal sides. -/
theorem move?_ne_some_self {m : NamespaceMoves} (hm : m.Keyed) (hpairs : ∀ p ∈ m.pairs, p.1 ≠ p.2) (ns : Text) :
    m.move? ns ≠ some ns := by
  intro h
  obtain ⟨old, new, rest, hp, hw, -, htarget⟩ := (move?_eq_some_iff hm).mp h
  exact result_ne (hpairs _ hp) hw htarget.symm

end NamespaceMoves

end Polyfill.Mapping
