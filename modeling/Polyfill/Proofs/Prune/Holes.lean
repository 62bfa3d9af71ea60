import Mathlib.Data.List.Pairwise
import Polyfill.Proofs.Source.Layout
import Polyfill.Prune.Lists

/-! # What joining and collapsing take

The ranges that go from a list, its holes, come in source order. Those that only white space parts are
joined, so a joined range holds nothing but holes and white space, it reaches over no ink outside the holes,
and ink stands between any two of them. A list that collapses holds nothing but holes and white space.

* `Joined`: what a joined range is made of.
* `joinSpans_joined`, `joinSpans_parted`, `joinSpans_covers`: the joined ranges.
* `blankOutside_filled`, `blankOutside_of_filled`: the bytes of a list that collapses. -/

namespace Polyfill.Prune

open Source Notice Text

variable {source : Text}

/-- The byte at the offset `i` lies in one of the ranges or belongs to a white-space character. -/
def Filled (source : Text) (hs : List Span) (i : ℕ) : Prop :=
  (∃ h ∈ hs, h.start ≤ i ∧ i < h.stop) ∨ BlankAt source i

/-- The range is made of some of the holes `hs` and of white space between them. -/
structure Joined (source : Text) (hs : List Span) (r : Span) : Prop where
  starts : ∃ h ∈ hs, r.start = h.start ∧ h.stop ≤ r.stop
  stops : ∃ h ∈ hs, r.stop = h.stop
  filled : ∀ i, r.start ≤ i → i < r.stop → Filled source hs i

/-- Ink stands between the ranges. -/
def Parted (source : Text) (r r' : Span) : Prop := ∃ k, r.stop ≤ k ∧ k < r'.start ∧ Ink source k

theorem Joined.self {hs : List Span} {h : Span} (hm : h ∈ hs) : Joined source hs h where
  starts := ⟨h, hm, rfl, le_rfl⟩
  stops := ⟨h, hm, rfl⟩
  filled _ h₁ h₂ := Or.inl ⟨h, hm, h₁, h₂⟩

/-- A joined range and the next hole, if only white space parts them, are a joined range. -/
theorem Joined.snoc {hs : List Span} {r h : Span} (hr : Joined source hs r) (hm : h ∈ hs)
    (hp : Placed source h) (hle : r.stop ≤ h.start) (hb : (source.slice r.stop h.start).isBlank = true) :
    Joined source hs ⟨r.start, h.stop⟩ where
  starts := by
    obtain ⟨x, hx, hs, he⟩ := hr.starts
    have := hp.lt
    exact ⟨x, hx, hs, show x.stop ≤ h.stop by omega⟩
  stops := ⟨h, hm, rfl⟩
  filled i h₁ h₂ := by
    simp only at h₁ h₂
    rcases Nat.lt_or_ge i r.stop with hi | hi
    · exact hr.filled i h₁ hi
    · rcases Nat.lt_or_ge i h.start with hi' | hi'
      · have := hp.lt
        have := hp.le
        exact Or.inr (blankAt_of_isBlank hb (by omega) hi hi')
      · exact Or.inl ⟨h, hm, hi', h₂⟩

theorem Joined.passes {hs : List Span} {r : Span} {a k : ℕ} (hr : Joined source hs r)
    (hp : ∀ h ∈ hs, Placed source h) (hak : a ≤ k) (hk : Dark source k)
    (hs : ∀ h ∈ hs, h.stop ≤ a ∨ k < h.start) : r.stop ≤ a ∨ k < r.start := by
  by_contra hc
  rw [not_or, Nat.not_le, Nat.not_lt] at hc
  obtain ⟨x, hx, hxs⟩ := hr.stops
  have hkr : k < r.stop := by
    have := (hp x hx).lt
    have := hs x hx
    omega
  rcases hr.filled k hc.2 hkr with ⟨y, hy, h₁, h₂⟩ | hb
  · have := hs y hy
    omega
  · exact hk.not_blankAt hb

/-! ### Joining -/

/-- The ranges `out` are what joining makes of the range `current` and the holes `hs` behind it. -/
structure JoinsTo (source : Text) (all : List Span) (current : Span) (hs out : List Span) : Prop where
  joined : ∀ r ∈ out, Joined source all r
  start_le : ∀ r ∈ out, current.start ≤ r.start
  parted : out.Pairwise (Parted source)
  covers : ∀ h, h = current ∨ h ∈ hs → ∃ r ∈ out, r.start ≤ h.start ∧ h.stop ≤ r.stop

theorem joinFrom_joinsTo {all : List Span} (hall : ∀ h ∈ all, Placed source h) :
    ∀ {hs : List Span} {current : Span}, (∀ h ∈ hs, h ∈ all) → Joined source all current →
      current.start ≤ current.stop → (current :: hs).Pairwise (fun a b => a.stop ≤ b.start) →
      JoinsTo source all current hs (joinFrom source current hs)
  | [], current, _, hc, _, _ => by
    rw [joinFrom]
    exact ⟨by simpa using hc, by simp, by simp, by simp⟩
  | h :: hs, current, hsub, hc, hlt, ho => by
    have hm := hsub h (by simp)
    have hp := hall h hm
    have hsub' : ∀ x ∈ hs, x ∈ all := fun x hx => hsub x (by simp [hx])
    obtain ⟨hcur, htail⟩ := List.pairwise_cons.mp ho
    have hch := hcur h (by simp)
    have hh := hp.lt
    rw [joinFrom]
    split
    · next hj =>
      obtain ⟨u, hu, hblank⟩ := (Option.any_eq_true _ _).mp hj
      obtain ⟨-, rfl⟩ := slice?_eq_some_iff.mp hu
      obtain ⟨hbehind, hrest⟩ := List.pairwise_cons.mp htail
      have ih := joinFrom_joinsTo hall hsub' (hc.snoc hm hp hch hblank)
        (show current.start ≤ h.stop by omega) (.cons hbehind hrest)
      refine { ih with covers := fun x hx => ?_ }
      -- The joined range takes the place of both `current` and `h`.
      rcases hx with rfl | hx
      · obtain ⟨r, hr, h₁, h₂⟩ := ih.covers _ (Or.inl rfl)
        exact ⟨r, hr, h₁, by simp only at h₂; omega⟩
      · rcases List.mem_cons.mp hx with rfl | hx
        · obtain ⟨r, hr, h₁, h₂⟩ := ih.covers _ (Or.inl rfl)
          exact ⟨r, hr, by simp only at h₁; omega, h₂⟩
        · exact ih.covers x (Or.inr hx)
    · next hj =>
      have ih := joinFrom_joinsTo hall hsub' (.self hm) hh.le htail
      have hink : ∃ k, current.stop ≤ k ∧ k < h.start ∧ Ink source k := by
        obtain ⟨x, hx, hxs⟩ := hc.stops
        refine exists_ink_of_not_isBlank fun hb => hj ?_
        rw [slice?_of_isBoundary hch (hxs ▸ (hall x hx).closes) hp.opens, Option.any_some, hb]
      obtain ⟨k, h₁, h₂, hi⟩ := hink
      refine ⟨fun r hr => ?_, fun r hr => ?_, .cons (fun r hr => ?_) ih.parted, fun x hx => ?_⟩
      · rcases List.mem_cons.mp hr with rfl | hr
        · exact hc
        · exact ih.joined r hr
      · rcases List.mem_cons.mp hr with rfl | hr
        · exact le_rfl
        · have := ih.start_le r hr
          omega
      · have := ih.start_le r hr
        exact ⟨k, h₁, by omega, hi⟩
      · rcases hx with rfl | hx
        · exact ⟨x, by simp, le_rfl, le_rfl⟩
        · obtain ⟨r, hr, hc⟩ := ih.covers x (List.mem_cons.mp hx)
          exact ⟨r, by simp [hr], hc⟩

theorem joinSpans_joinsTo {h : Span} {hs : List Span} (hp : ∀ x ∈ h :: hs, Placed source x)
    (ho : (h :: hs).Pairwise fun a b => a.stop ≤ b.start) :
    JoinsTo source (h :: hs) h hs (joinSpans source (h :: hs)) :=
  joinFrom_joinsTo hp (fun _ hx => List.mem_cons_of_mem h hx) (.self (List.mem_cons_self ..))
    (hp h (List.mem_cons_self ..)).lt.le ho

section Holes

variable {hs : List Span} (hp : ∀ h ∈ hs, Placed source h) (ho : hs.Pairwise fun a b => a.stop ≤ b.start)
include hp ho

/-- A joined range is made of holes and of white space between them. -/
theorem joinSpans_joined : ∀ r ∈ joinSpans source hs, Joined source hs r := by
  cases hs with
  | nil => simp [joinSpans]
  | cons h hs => exact (joinSpans_joinsTo hp ho).joined

/-- Ink stands between any two joined ranges. -/
theorem joinSpans_parted : (joinSpans source hs).Pairwise (Parted source) := by
  cases hs with
  | nil => simp [joinSpans]
  | cons h hs => exact (joinSpans_joinsTo hp ho).parted

/-- Every hole lies in a joined range. -/
theorem joinSpans_covers : ∀ h ∈ hs, ∃ r ∈ joinSpans source hs, r.start ≤ h.start ∧ h.stop ≤ r.stop := by
  cases hs with
  | nil => simp
  | cons x hs => exact fun h hh => (joinSpans_joinsTo hp ho).covers h (List.mem_cons.mp hh)

end Holes

/-! ### Collapsing -/

/-- The bytes of a list that collapses lie in holes or belong to white-space characters. -/
theorem blankOutside_filled {stop : ℕ} (hl : stop ≤ source.length) : ∀ {hs : List Span} {cursor i : ℕ},
    (∀ h ∈ hs, h.start ≤ source.length) → blankOutside source stop cursor hs = true → cursor ≤ i →
    i < stop → Filled source hs i
  | [], cursor, i, _, hb, hc, hi => by
    rw [blankOutside, Bool.or_eq_true, decide_eq_true_eq] at hb
    rcases hb with hb | hb
    · omega
    · exact Or.inr (blankAt_of_isBlank hb hl hc hi)
  | h :: hs, cursor, i, hle, hb, hc, hi => by
    rw [blankOutside, Bool.and_eq_true, Bool.or_eq_true, decide_eq_true_eq] at hb
    rcases Nat.lt_or_ge i (max cursor h.stop) with hlt | hge
    · rcases Nat.lt_or_ge i h.start with hs' | hs'
      · rcases hb.1 with hb | hb
        · omega
        · exact Or.inr (blankAt_of_isBlank hb (hle h (by simp)) hc hs')
      · exact Or.inl ⟨h, by simp, hs', by omega⟩
    · rcases blankOutside_filled hl (fun x hx => hle x (by simp [hx])) hb.2 hge hi with ⟨x, hx, hi⟩ | hi
      · exact Or.inl ⟨x, by simp [hx], hi⟩
      · exact Or.inr hi

/-- A list whose bytes lie in holes or belong to white-space characters collapses. -/
theorem blankOutside_of_filled (hv : Encoded source) {stop : ℕ} (hb : source.isBoundary stop = true)
    (hl : stop ≤ source.length) : ∀ {hs : List Span} {cursor : ℕ}, source.isBoundary cursor = true →
    (∀ h ∈ hs, Placed source h) → (hs.Pairwise fun a b => a.stop ≤ b.start) → (∀ h ∈ hs, h.stop ≤ stop) →
    (∀ i, cursor ≤ i → i < stop → Filled source hs i) → blankOutside source stop cursor hs = true
  | [], cursor, hc, _, _, _, hf => by
    rw [blankOutside, Bool.or_eq_true]
    refine Or.inr ((isBlank_slice_iff hv hc hb hl).mpr fun i h₁ h₂ => ?_)
    rcases hf i h₁ h₂ with ⟨h, hh, -⟩ | hblank
    · cases hh
    · exact hblank
  | h :: hs, cursor, hc, hp, ho, hle, hf => by
    have hph := hp h (by simp)
    have hlt := hph.lt
    have hstop := hle h (by simp)
    obtain ⟨hbehind, ho'⟩ := List.pairwise_cons.mp ho
    rw [blankOutside, Bool.and_eq_true, Bool.or_eq_true]
    constructor
    · -- In front of the first hole there is no other one.
      refine Or.inr ((isBlank_slice_iff hv hc hph.opens (by omega)).mpr fun i h₁ h₂ => ?_)
      rcases hf i h₁ (by omega) with ⟨x, hx, h₃, -⟩ | hblank
      · rcases List.mem_cons.mp hx with rfl | hx
        · omega
        · have := hbehind x hx
          omega
      · exact hblank
    · have hc' : source.isBoundary (max cursor h.stop) = true := by
        rcases max_choice cursor h.stop with heq | heq <;> rw [heq]
        · exact hc
        · exact hph.closes
      refine blankOutside_of_filled hv hb hl hc' (fun x hx => hp x (by simp [hx])) ho'
        (fun x hx => hle x (by simp [hx])) fun i h₁ h₂ => ?_
      rcases hf i (by omega) h₂ with ⟨x, hx, hi⟩ | hblank
      · rcases List.mem_cons.mp hx with rfl | hx
        · omega
        · exact Or.inl ⟨x, hx, hi⟩
      · exact Or.inr hblank

end Polyfill.Prune
