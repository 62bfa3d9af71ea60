import Polyfill.Proofs.Edit.Order
import Polyfill.Proofs.Text.Encoding

/-! # Applying edits is splicing them

One pass from left to right copies what lies between the edits. The same text comes out if the edits are made one at a
time from the last to the first: what has been made already stands behind the edit that comes next, so its offsets still
mean the source. The pass stops at the first edit that does not lie behind its predecessor, and since the edits come in
order, all of them do if and only if any two are apart.

* `Row`: edits that lie one behind the other in the text.
* `applySorted_of_row`: they are applied, and the outcome is their splice.
* `exists_firstMisfit`: edits that are no row have a first one that does not lie behind its predecessor.
* `applyEdits_eq_splice`: applying edits is splicing, and when and where it fails.
* `applyEdits_perm`: the order in which edits are given does not matter. -/

namespace Polyfill

namespace Edit

variable {source : Text}

/-- The text with the edit made in it. -/
def splice (e : Edit) (t : Text) : Text := t.take e.start ++ (e.replacement ++ t.drop e.stop)

/-- The edit cuts no character of the source. Offsets behind the end of the source are not meant. -/
structure OnBoundaries (source : Text) (e : Edit) : Prop where
  opens : e.start ≤ source.length → source.isBoundary e.start = true
  closes : e.stop ≤ source.length → source.isBoundary e.stop = true

/-- **Edits that lie in the source one behind the other**, from an offset on. -/
def Row (source : Text) : (cursor : ℕ) → List Edit → Prop
  | _, [] => True
  | cursor, e :: es => cursor ≤ e.start ∧ e.start ≤ e.stop ∧ e.stop ≤ source.length ∧ Row source e.stop es

/-- The edit is reversed, leaves the source or begins in front of an offset. -/
def Misfit (source : Text) (cursor : ℕ) (e : Edit) : Prop :=
  e.start < cursor ∨ e.stop < e.start ∨ source.length < e.stop

/-- The end of the last edit, and of none the given offset. -/
def reach (cursor : ℕ) (es : List Edit) : ℕ := (es.getLast?.map stop).getD cursor

/-- **The first edit of a list that does not fit**: it is reversed, leaves the source or begins in front of the end of
its predecessor, and all edits before it lie one behind the other. -/
def FirstMisfit (source : Text) (es : List Edit) (e : Edit) : Prop :=
  ∃ before after, es = before ++ e :: after ∧ Row source 0 before ∧ Misfit source (reach 0 before) e

theorem row_iff {cursor : ℕ} {es : List Edit} : Row source cursor es ↔
    (∀ e ∈ es, cursor ≤ e.start ∧ e.start ≤ e.stop ∧ e.stop ≤ source.length) ∧
      es.Pairwise fun a b => a.stop ≤ b.start := by
  induction es generalizing cursor with
  | nil => simp [Row]
  | cons e es ih =>
    rw [Row, ih, List.forall_mem_cons, List.pairwise_cons]
    constructor
    · rintro ⟨hcursor, hle, hstop, hall, hpair⟩
      exact ⟨⟨⟨hcursor, hle, hstop⟩, fun x hx => ⟨by have := (hall x hx).1; omega, (hall x hx).2⟩⟩,
        fun x hx => (hall x hx).1, hpair⟩
    · rintro ⟨⟨⟨hcursor, hle, hstop⟩, hall⟩, hhead, hpair⟩
      exact ⟨hcursor, hle, hstop, fun x hx => ⟨hhead x hx, (hall x hx).2⟩, hpair⟩

/-- **Sorted edits lie one behind the other if and only if they fit and any two are apart.** -/
theorem row_sort_iff {es : List Edit} : Row source 0 (sort es) ↔
    (∀ e ∈ es, e.start ≤ e.stop ∧ e.stop ≤ source.length) ∧ es.Pairwise Apart := by
  have hp := perm_sort es
  rw [row_iff]
  constructor
  · rintro ⟨hall, hpair⟩
    exact ⟨fun e he => (hall e (hp.mem_iff.mpr he)).2, (hp.pairwise_iff Apart.symm).mp (hpair.imp Or.inl)⟩
  · rintro ⟨hall, hapart⟩
    exact ⟨fun e he => ⟨Nat.zero_le _, hall e (hp.mem_iff.mp he)⟩, pairwise_sort (fun e he => (hall e he).1) hapart⟩

/-! ### Splices of a row -/

theorem take_splice {n : ℕ} {es : List Edit} (hn : n ≤ source.length) (h : ∀ e ∈ es, n ≤ e.start) :
    (es.foldr splice source).take n = source.take n := by
  induction es with
  | nil => rfl
  | cons e es ih =>
    have hrest : (es.foldr splice source).take n = source.take n := ih fun x hx => h x (List.mem_cons_of_mem _ hx)
    have hlen : n ≤ (es.foldr splice source).length := by
      have := congrArg List.length hrest
      rw [List.length_take, List.length_take] at this
      omega
    have hstart : n ≤ e.start := h e (List.mem_cons_self ..)
    rw [List.foldr_cons, splice, List.take_append_of_le_length (by rw [List.length_take]; omega), List.take_take,
      min_eq_left hstart, hrest]

/-- **A row of edits is applied**, and what comes out is the splice of the edits from the last to the first. -/
theorem applySorted_of_row {es : List Edit} {cursor : ℕ} (hb : ∀ e ∈ es, e.OnBoundaries source)
    (hle : cursor ≤ source.length) (hc : source.isBoundary cursor = true) (h : Row source cursor es) :
    applySorted source cursor es = .ok ((es.foldr splice source).drop cursor) := by
  induction es generalizing cursor with
  | nil =>
    have hs : source.slice? cursor source.length = some (source.slice cursor source.length) :=
      if_pos ⟨hle, hc, by simp [Text.isBoundary]⟩
    rw [applySorted, hs]
    simp [Text.slice]
  | cons e es ih =>
    obtain ⟨hcursor, hstart, hstop, hrow⟩ := h
    obtain ⟨hopens, hcloses⟩ := hb e (List.mem_cons_self ..)
    have hs : source.slice? cursor e.start = some (source.slice cursor e.start) :=
      if_pos ⟨hcursor, hc, hopens (by omega)⟩
    have hrest := ih (fun x hx => hb x (List.mem_cons_of_mem _ hx)) hstop (hcloses hstop) hrow
    have htake : (es.foldr splice source).take e.start = source.take e.start :=
      take_splice (by omega) fun x hx => by have := ((row_iff.mp hrow).1 x hx).1; omega
    have hkept : (source.take e.start).drop cursor = source.slice cursor e.start := by rw [List.drop_take, Text.slice]
    rw [applySorted, if_neg (by omega), hs, hrest, List.foldr_cons, splice, htake,
      List.drop_append_of_le_length (by rw [List.length_take]; omega), hkept, ← List.append_assoc]
    rfl

/-- **Edits that are no row have a first one that does not fit**, and applying them fails there. -/
theorem exists_firstMisfit {es : List Edit} {cursor : ℕ} (hb : ∀ e ∈ es, e.OnBoundaries source)
    (hc : source.isBoundary cursor = true) (h : ¬ Row source cursor es) :
    ∃ before e after, es = before ++ e :: after ∧ Row source cursor before ∧ Misfit source (reach cursor before) e ∧
      applySorted source cursor es = .error (.overlap e.start) := by
  induction es generalizing cursor with
  | nil => exact absurd trivial h
  | cons e es ih =>
    by_cases hfit : Misfit source cursor e
    · exact ⟨[], e, es, rfl, trivial, hfit, if_pos hfit⟩
    · simp only [Misfit, not_or, not_lt] at hfit
      obtain ⟨hcursor, hstart, hstop⟩ := hfit
      obtain ⟨hopens, hcloses⟩ := hb e (List.mem_cons_self ..)
      have hrest : ¬ Row source e.stop es := fun hrow => h ⟨hcursor, hstart, hstop, hrow⟩
      obtain ⟨before, x, after, rfl, hrow, hmisfit, herror⟩ :=
        ih (fun x hx => hb x (List.mem_cons_of_mem _ hx)) (hcloses hstop) hrest
      refine ⟨e :: before, x, after, rfl, ⟨hcursor, hstart, hstop, hrow⟩, ?_, ?_⟩
      · rw [reach, List.getLast?_cons]
        cases hlast : before.getLast? <;> simpa [reach, hlast] using hmisfit
      · have hs : source.slice? cursor e.start = some (source.slice cursor e.start) :=
          if_pos ⟨hcursor, hc, hopens (by omega)⟩
        rw [applySorted, if_neg (by omega), hs, herror]
        rfl

/-! ### What the outcome depends on -/

/-- Only edits that lie one behind the other are applied. -/
theorem row_of_applySorted {es : List Edit} {cursor : ℕ} {t : Text} (h : applySorted source cursor es = .ok t) :
    Row source cursor es := by
  induction es generalizing cursor t with
  | nil => trivial
  | cons e es ih =>
    rw [applySorted] at h
    split at h
    · cases h
    · next hfit =>
      split at h
      · cases h
      · cases hrest : applySorted source e.stop es with
        | error f =>
          rw [hrest] at h
          cases h
        | ok rest => exact ⟨by omega, by omega, by omega, ih hrest⟩

/-- The fault of sorted edits depends on their ranges alone. -/
theorem applySorted_error_of_map_range_eq {es es' : List Edit} {cursor : ℕ} {f : Fault}
    (hr : es.map range = es'.map range) (h : applySorted source cursor es = .error f) :
    applySorted source cursor es' = .error f := by
  induction es generalizing es' cursor with
  | nil =>
    obtain rfl : es' = [] := by simpa using hr.symm
    exact h
  | cons e es ih =>
    obtain ⟨e', es', rfl, hhead, hrest⟩ := List.map_eq_cons_iff.mp hr.symm
    obtain ⟨hstart, hstop⟩ := range_eq_iff.mp hhead
    rw [applySorted] at h ⊢
    rw [hstart, hstop]
    split at h
    · next hmisfit =>
      rw [if_pos hmisfit]
      exact h
    · next hfit =>
      rw [if_neg hfit]
      cases hs : source.slice? cursor e.start with
      | none =>
        rw [hs] at h
        exact h
      | some kept =>
        rw [hs] at h
        cases htail : applySorted source e.stop es with
        | error f' =>
          rw [htail] at h
          obtain rfl : f' = f := Except.error.inj h
          rw [ih hrest.symm htail]
          rfl
        | ok rest =>
          rw [htail] at h
          cases h

end Edit

open Edit

/-- **Applying edits is splicing them from the last to the first.** Let the edits cut no character. They are applied if
and only if each of them lies in the source, with its start not behind its stop, and any two are apart. There is one
arrangement of them by start and then by stop that keeps the order of edits of one range; if they are applied, the
outcome is their splice in this arrangement, and if not, the fault is an overlap at the start of the first edit of the
arrangement that does not fit. -/
theorem applyEdits_eq_splice {source : Text} {es : List Edit} (hv : source.isValid = true)
    (hb : ∀ e ∈ es, e.OnBoundaries source) :
    ((∃ t, applyEdits source es = .ok t) ↔
      (∀ e ∈ es, e.start ≤ e.stop ∧ e.stop ≤ source.length) ∧ es.Pairwise Apart) ∧
    ∃ sorted, (∀ s, Arranged es s ↔ s = sorted) ∧
      (∀ t, applyEdits source es = .ok t → t = sorted.foldr splice source) ∧
      ∀ f, applyEdits source es = .error f → ∃ e, FirstMisfit source sorted e ∧ f = .overlap e.start := by
  have hzero : source.isBoundary 0 = true := (Text.Cuts.zero (Text.isValid_iff.mp hv)).isBoundary (Nat.zero_le _)
  have hb' : ∀ e ∈ sort es, e.OnBoundaries source := fun e he => hb e ((perm_sort es).mem_iff.mp he)
  have hok : Row source 0 (sort es) → applyEdits source es = .ok ((sort es).foldr splice source) :=
    applySorted_of_row hb' (Nat.zero_le _) hzero
  refine ⟨?_, sort es, fun _ => arranged_iff_eq_sort, ?_, ?_⟩
  · rw [← row_sort_iff]
    exact ⟨fun ⟨t, ht⟩ => row_of_applySorted ht, fun hrow => ⟨_, hok hrow⟩⟩
  · intro t ht
    rw [hok (row_of_applySorted ht)] at ht
    exact (Except.ok.inj ht).symm
  · intro f hf
    have hno : ¬ Row source 0 (sort es) := by
      intro hrow
      rw [hok hrow] at hf
      cases hf
    obtain ⟨before, e, after, hes, hrow, hmisfit, herror⟩ := exists_firstMisfit hb' hzero hno
    rw [applyEdits, herror] at hf
    exact ⟨e, ⟨before, after, hes, hrow, hmisfit⟩, (Except.error.inj hf).symm⟩

/-- Edits out of order: an insertion at the start of a deletion, and two at its end. -/
theorem applyEdits_eq_splice_sample :
    let source := Text.ofString "abcd"
    let es : List Edit := [⟨3, 3, .ofString "x"⟩, .delete 1 3, ⟨3, 3, .ofString "y"⟩, ⟨1, 1, .ofString "z"⟩]
    source.isValid = true ∧ (∀ e ∈ es, e.OnBoundaries source) ∧
      ∃ t, applyEdits source es = .ok t ∧ t = .ofString "azxyd" := by
  intro source es
  have hv : source.isValid = true := by decide +kernel
  have hb : ∀ e ∈ es, e.OnBoundaries source := by
    have hall : ∀ e ∈ es, source.isBoundary e.start = true ∧ source.isBoundary e.stop = true := by decide +kernel
    exact fun e he => ⟨fun _ => (hall e he).1, fun _ => (hall e he).2⟩
  obtain ⟨t, ht⟩ := (applyEdits_eq_splice hv hb).1.mpr (by decide +kernel)
  refine ⟨hv, hb, t, ht, ?_⟩
  have hrun : applyEdits source es = .ok (.ofString "azxyd") := by decide +kernel
  rw [ht] at hrun
  exact Except.ok.inj hrun

/-- **The order in which edits are given does not matter.** Two lists of the same edits have the same fault, if any, and
the same outcome unless two insertions at one place differ. -/
theorem applyEdits_perm {source : Text} {es es' : List Edit} (hp : es.Perm es') :
    (∀ f, applyEdits source es = .error f ↔ applyEdits source es' = .error f) ∧
      (NoRivals es → applyEdits source es = applyEdits source es') := by
  have hranges : (sort es).map range = (sort es').map range := map_range_sort hp
  have herror : ∀ f, applyEdits source es = .error f ↔ applyEdits source es' = .error f := fun f =>
    ⟨applySorted_error_of_map_range_eq hranges, applySorted_error_of_map_range_eq hranges.symm⟩
  refine ⟨herror, fun hr => ?_⟩
  cases h : applyEdits source es with
  | error f => exact ((herror f).mp h).symm
  | ok t =>
    obtain ⟨hall, hapart⟩ := row_sort_iff.mp (row_of_applySorted h)
    rw [← h, applyEdits, applyEdits, sort_eq_sort_of_perm hp hapart (fun e he => (hall e he).1) hr]

/-- Four edits in two orders. -/
theorem applyEdits_perm_sample :
    let source := Text.ofString "abcd"
    let es : List Edit := [⟨3, 3, .ofString "x"⟩, .delete 1 3, ⟨3, 3, .ofString "x"⟩, ⟨1, 1, .ofString "z"⟩]
    es.Perm es.reverse ∧ NoRivals es ∧ applyEdits source es = applyEdits source es.reverse := by
  intro source es
  have hr : NoRivals es := by decide +kernel
  exact ⟨es.reverse_perm.symm, hr, (applyEdits_perm es.reverse_perm.symm).2 hr⟩

end Polyfill
