import Polyfill.Proofs.Edit.Apply
import Polyfill.Proofs.Edit.Line
import Polyfill.Proofs.Prune.Holes

/-! # What goes from one statement list

The deletions from a list that lies well stay between its braces (or the ink around it), are apart from each
other, take every hole and nothing else but white space, and leave all other statements of the list alone. The
one thing that a statement next to a hole can lose is white space at the start of a text outside the code: it
goes with the line of the hole.

* `Goes`: the statement is a hole of its list; `Spares`: a deletion leaves a statement alone.
* `Deletion`, `listEdits_deletion`: what is known of each deletion.
* `listEdits_apart`, `listEdits_covers`: the deletions are apart and take every hole. -/

namespace Polyfill

open Source Notice Text

namespace Prune

variable {j : Judge} {source : Text} {lo hi : ℕ} {s : Stmt} {ss : List Stmt} {l : StatementList} {e : Edit}

/-- The statement goes from a list that holds rename notices. -/
def Goes (j : Judge) (source : Text) (s : Stmt) : Prop := j.removes s = true ∨ isStray source s = true

/-! ### Holes -/

theorem mem_holes {h : Span} : h ∈ holes j source ss ↔ ∃ s ∈ ss, Goes j source s ∧ s.span = h := by
  simp only [holes, List.mem_map, List.mem_filter, Bool.or_eq_true, Goes, and_assoc]

theorem not_isStray_of_marked (h : Marked source s.span) (hl : s.span.stop ≤ source.length) :
    isStray source s = false := by
  obtain ⟨k, b, hs, he, hb, hc, hlt, hne⟩ := h
  rw [isStray, beq_eq_false_iff_ne]
  intro ht
  rcases blankAt_or_of_trim hs he hl with hblank | ⟨i, hi, hbi⟩
  · exact Dark.not_blankAt ⟨b, hb, hc, hlt⟩ hblank
  · rw [textAt] at ht
    rw [ht, hb] at hbi
    have hm := List.mem_of_getElem? hbi.symm
    exact hne (List.mem_singleton.mp hm)

theorem not_goes_of_isTag (h : s.IsTag source) : ¬ Goes j source s := by
  cases s with
  | other span parts inner =>
    rintro (hr | hr)
    · simp [Judge.removes, Judge.classify, Judge.inspect] at hr
    · have := not_isStray_of_marked (s := .other span parts inner) h.2 h.1.le
      rw [this] at hr
      cases hr
  | _ => exact h.elim

theorem deleteLines_widens {r : Span} (h : r.start ≤ r.stop) (hl : r.stop ≤ source.length) :
    Widens source r.start r.stop (deleteLines source r).start (deleteLines source r).stop :=
  expandToLine_widens h hl

/-- The deletions from a list: none if it holds no rename notice, else all between its braces, or the lines of
the joined holes. -/
theorem listEdits_cases (j : Judge) (source : Text) (l : StatementList) :
    (∀ s ∈ l.statements, ¬ j.removes s = true) ∧ listEdits j source l = [] ∨
    (∃ s ∈ l.statements, j.removes s = true) ∧
      ((∃ b ∈ l.braces, blankOutside source b.stop b.start (holes j source l.statements) = true ∧
          listEdits j source l = [.delete b.start b.stop]) ∨
        listEdits j source l = (joinSpans source (holes j source l.statements)).map (deleteLines source)) := by
  unfold listEdits
  split
  · next h =>
    refine Or.inr ⟨by simpa using h, ?_⟩
    extract_lets hs
    split
    · next b hb =>
      split
      · next hblank => exact Or.inl ⟨b, hb, hblank, rfl⟩
      · exact Or.inr rfl
    · exact Or.inr rfl
  · next h => exact Or.inl ⟨by simpa using h, rfl⟩

theorem exists_removes (he : e ∈ listEdits j source l) : ∃ s ∈ l.statements, j.removes s = true := by
  rcases listEdits_cases j source l with ⟨-, hnil⟩ | ⟨h, -⟩
  · rw [hnil] at he
    cases he
  · exact h

/-! ### Lists that lie well -/

section Laid

variable [SourceParser]

/-- The statement is a text outside the code that stands directly behind one of the given places, which ends with a
closing tag. -/
def BehindTag (source : Text) (gone : Span → Prop) (s : Stmt) : Prop :=
  s.IsText source ∧ ∃ g, gone g ∧ g.stop = s.span.start ∧ Text.ofString "?>" <:+ textAt source g

omit [SourceParser] in
/-- What ends with a closing tag is more than a semicolon. -/
theorem marked_of_tag {g : Span} (hg : Placed source g) (h : Text.ofString "?>" <:+ textAt source g) :
    Marked source g := by
  obtain ⟨front, hfront⟩ := h
  have hlen := congrArg List.length hfront
  have hle := hg.le
  have hbyte : (textAt source g)[front.length + 1]? = some 0x3E := by
    rw [← hfront, List.getElem?_append_right (by omega), Nat.add_sub_cancel_left]
    rfl
  rw [textAt, getElem?_slice] at hbyte
  split at hbyte
  · exact ⟨g.start + (front.length + 1), 0x3E, by omega, by omega, hbyte, by decide, by decide, by decide⟩
  · cases hbyte

theorem BehindTag.imp {gone gone' : Span → Prop} (h : BehindTag source gone s) (hg : ∀ g, gone g → gone' g) :
    BehindTag source gone' s := by
  obtain ⟨htext, g, hgone, hrest⟩ := h
  exact ⟨htext, g, hg g hgone, hrest⟩

/-- The deletion leaves the statement alone, or it takes no more than blanks and line feeds from the start of a
text directly behind one of the given places. -/
def Spares (source : Text) (gone : Span → Prop) (e : Edit) (s : Stmt) : Prop :=
  e.stop ≤ s.span.start ∨ s.span.stop ≤ e.start ∨
    BehindTag source gone s ∧ e.start ≤ s.span.start ∧
      ∀ i, s.span.start ≤ i → i < e.stop → ∃ b, source[i]? = some b ∧ isLineSpace b = true

theorem Spares.imp {gone gone' : Span → Prop} (h : Spares source gone e s) (hg : ∀ g, gone g → gone' g) :
    Spares source gone' e s := Or.imp_right (Or.imp_right (And.imp_left (·.imp hg))) h

/-- A statement that stays guards what is in front of it: behind its start there is ink which no hole holds,
and every hole lies in front of the statement or behind that ink. -/
theorem exists_guard : ∀ {lo ss}, listLaid source lo hi ss → s ∈ ss → ¬ Goes j source s →
    ∃ k, s.span.start ≤ k ∧ s.span.stop ≤ k + 1 ∧ k < hi ∧ Dark source k ∧
      ∀ h ∈ holes j source ss, h.stop ≤ s.span.start ∨ k < h.start
  | lo, x :: ss, hl, hs, hg => by
    have hbounds := fun y (hy : y ∈ x :: ss) => hl.bounds hy
    have hplaced := fun y (hy : y ∈ x :: ss) => hl.placed hy
    rw [listLaid_cons] at hl
    obtain ⟨hlo, -, htail, hx, -⟩ := hl
    rcases List.mem_cons.mp hs with rfl | hs'
    · rcases hx with hx | ⟨-, -, n, hn, htag⟩
      · -- The last byte of the statement itself is the ink.
        have := hx.lt
        have := (hbounds s (by simp)).2
        refine ⟨s.span.stop - 1, by omega, by omega, by omega, hx.last, fun h hh => ?_⟩
        obtain ⟨y, hy, hgy, rfl⟩ := mem_holes.mp hh
        rcases List.mem_cons.mp hy with rfl | hy
        · exact absurd hgy hg
        · have := (htail.bounds hy).1
          omega
      · -- Behind a text it is the last byte of the tag.
        cases ss with
        | nil => simp at hn
        | cons t ss =>
          cases hn
          have hsolid := htag.solid
          have hb := htail.bounds (List.mem_cons_self ..)
          have ho := List.pairwise_cons.mp htail.ordered
          have := hsolid.lt
          have := (hplaced s (by simp)).lt
          refine ⟨n.span.stop - 1, by omega, by omega, by omega, hsolid.last, fun h hh => ?_⟩
          obtain ⟨y, hy, hgy, rfl⟩ := mem_holes.mp hh
          rcases List.mem_cons.mp hy with rfl | hy
          · exact absurd hgy hg
          · rcases List.mem_cons.mp hy with rfl | hy
            · exact absurd hgy (not_goes_of_isTag htag)
            · have := ho.1 y hy
              omega
    · obtain ⟨k, h₁, h₂, h₃, hk, hh⟩ := exists_guard htail hs' hg
      refine ⟨k, h₁, h₂, h₃, hk, fun h hm => ?_⟩
      obtain ⟨y, hy, hgy, rfl⟩ := mem_holes.mp hm
      rcases List.mem_cons.mp hy with rfl | hy
      · exact Or.inl (htail.bounds hs').1
      · exact hh _ (mem_holes.mpr ⟨y, hy, hgy, rfl⟩)

theorem holes_placed (hl : listLaid source lo hi ss) : ∀ h ∈ holes j source ss, Placed source h := by
  intro h hh
  obtain ⟨s, hs, -, rfl⟩ := mem_holes.mp hh
  exact hl.placed hs

theorem holes_ordered (hl : listLaid source lo hi ss) :
    (holes j source ss).Pairwise fun a b => a.stop ≤ b.start := by
  rw [holes, List.pairwise_map]
  exact hl.ordered.sublist List.filter_sublist

/-! ### The deletions -/

/-- What is known of a deletion from the list `l` between the offsets `lo` and `hi`. -/
structure Deletion (j : Judge) (source : Text) (lo hi : ℕ) (l : StatementList) (e : Edit) : Prop where
  fits : e.Fits source
  replacement : e.replacement = []
  lo_le : lo ≤ e.start
  le_hi : e.stop ≤ hi
  /-- It takes a hole. -/
  holds : ∃ s ∈ l.statements, Goes j source s ∧ e.start ≤ s.span.start ∧ s.span.stop ≤ e.stop
  /-- It takes nothing but holes and white space. -/
  filled : ∀ i, e.start ≤ i → i < e.stop → Filled source (holes j source l.statements) i
  /-- It leaves alone what stays. -/
  spares : ∀ s ∈ l.statements, ¬ Goes j source s → Spares source (· ∈ holes j source l.statements) e s
  /-- It starts behind a token, with a hole, or with a line. -/
  starts : InToken source (e.start - 1) ∨ (∃ s ∈ l.statements, Goes j source s ∧ e.start = s.span.start) ∨
    e.start = 0 ∨ source[e.start - 1]? = some 0x0A

/-- The deletion of all between the braces. -/
theorem deletion_of_collapse (hl : l.Laid source lo hi) {b : Span} (hb : b ∈ l.braces)
    (hr : ∃ s ∈ l.statements, j.removes s = true)
    (hblank : blankOutside source b.stop b.start (holes j source l.statements) = true) :
    Deletion j source lo hi l (.delete b.start b.stop) := by
  obtain ⟨rfl, hlo, hhi, htoken, -⟩ := hl.braces b hb
  obtain ⟨s, hs, hrem⟩ := hr
  have hle := hl.after.lt_length.le
  have hlt := (hl.statements.placed hs).lt
  have hbounds := hl.statements.bounds hs
  have hfilled : ∀ i, lo ≤ i → i < hi → Filled source (holes j source l.statements) i := by
    intro i h₁ h₂
    refine blankOutside_filled hle (fun h hh => ?_) hblank h₁ h₂
    have hp := holes_placed hl.statements h hh
    exact hp.lt.le.trans hp.le
  refine ⟨⟨by simp only [Edit.delete]; omega, hle, hlo, hhi⟩, rfl, le_rfl, le_rfl,
    ⟨s, hs, Or.inl hrem, hbounds⟩, hfilled, fun x hx hg => ?_, Or.inl htoken⟩
  -- No statement stays where a list collapses: its ink would be left.
  obtain ⟨k, h₁, -, h₃, hk, hh⟩ := exists_guard hl.statements hx hg
  have := (hl.statements.bounds hx).1
  rcases hfilled k (by omega) h₃ with ⟨h, hm, h₄, h₅⟩ | hblank
  · rcases hh h hm with h₆ | h₆ <;> omega
  · exact absurd hblank hk.not_blankAt

/-- The deletion of the lines of joined holes. -/
theorem deletion_of_joined (hv : Encoded source) (hl : l.Laid source lo hi) {r : Span}
    (hr : r ∈ joinSpans source (holes j source l.statements)) :
    Deletion j source lo hi l (deleteLines source r) := by
  have hp := holes_placed (j := j) hl.statements
  have hj := joinSpans_joined hp (holes_ordered hl.statements) r hr
  obtain ⟨h, hh, hstart, hstop⟩ := hj.starts
  obtain ⟨h', hh', hstop'⟩ := hj.stops
  obtain ⟨s, hs, hg, rfl⟩ := mem_holes.mp hh
  obtain ⟨s', hs', -, rfl⟩ := mem_holes.mp hh'
  have hps := hl.statements.placed hs
  have hps' := hl.statements.placed hs'
  have hlt := hps.lt
  have hw := deleteLines_widens (r := r) (by omega) (hstop' ▸ hps'.le)
  have ha := hw.start_le
  have hz := hw.le_stop
  have hb := hw.isBoundary hv (by omega) (hstart ▸ hps.opens) (hstop' ▸ hps'.closes)
  refine ⟨⟨by omega, hw.stop_le, hb.1, hb.2⟩, rfl, ?_, ?_, ⟨s, hs, hg, by omega, by omega⟩, ?_, ?_, ?_⟩
  · obtain ⟨a, rfl, hink⟩ := hl.before
    have := (hl.statements.bounds hs).1
    exact hw.lt_start_of_ink (by omega) hink
  · have := (hl.statements.bounds hs').2
    exact hw.stop_le_of_ink (by omega) hl.after
  · intro i h₁ h₂
    rcases Nat.lt_or_ge i r.start with hi | hi
    · exact Or.inr (hw.blankAt h₁ h₂ (Or.inl hi))
    · rcases Nat.lt_or_ge i r.stop with hi' | hi'
      · exact hj.filled i hi hi'
      · exact Or.inr (hw.blankAt h₁ h₂ (Or.inr hi'))
  · intro x hx hgx
    obtain ⟨k, h₁, h₂, -, hk, hguard⟩ := exists_guard hl.statements hx hgx
    rcases hj.passes hp h₁ hk hguard with hpass | hpass
    · -- The range lies in front of the statement; only a text gives way to the widening.
      rcases hl.statements.sealed_or_isText hx with hsealed | ⟨htext, hcode⟩
      · exact Or.inl (hw.stop_le_of_ink hpass hsealed.first)
      rcases Nat.lt_or_ge r.stop x.span.start with hlt' | hge
      · have := hw.stop_le_of_ink (by omega) (htext.dark hcode).ink
        exact Or.inl (by omega)
      · have hnext : s'.span.stop = x.span.start := by omega
        have hspaces := fun i (hi : x.span.start ≤ i) hi' => hw.after i (by omega) hi'
        by_cases hsealed : Sealed source s'.span
        · exact Or.inr (Or.inr ⟨⟨htext, _, hh', hnext, hsealed.tag _ htext.token hnext.symm⟩, by omega, hspaces⟩)
        · -- A stray text has a tag behind it.
          rcases hl.statements.tag_behind_text hs' hsealed hx hnext.le with htag | h'
          · exact Or.inl (hw.stop_le_of_ink hpass htag.solid.first)
          · omega
    · have := hw.lt_start_of_ink hpass hk.ink
      exact Or.inr (Or.inl (by omega))
  · rcases hw.lineStart with hls | hls
    · exact Or.inr (Or.inl ⟨s, hs, hg, by omega⟩)
    · exact Or.inr (Or.inr hls)

/-- **What is known of every deletion from a list that lies well.** -/
theorem listEdits_deletion (hv : Encoded source) (hl : l.Laid source lo hi) :
    ∀ e ∈ listEdits j source l, Deletion j source lo hi l e := by
  intro e he
  rcases listEdits_cases j source l with ⟨-, hnil⟩ | ⟨hr, ⟨b, hb, hblank, heq⟩ | heq⟩
  · rw [hnil] at he
    cases he
  · rw [heq, List.mem_singleton] at he
    rw [he]
    exact deletion_of_collapse hl hb hr hblank
  · rw [heq, List.mem_map] at he
    obtain ⟨r, hr, rfl⟩ := he
    exact deletion_of_joined hv hl hr

/-- The deletions from a list are apart. -/
theorem listEdits_apart (hl : l.Laid source lo hi) :
    (listEdits j source l).Pairwise Edit.Apart := by
  rcases listEdits_cases j source l with ⟨-, hnil⟩ | ⟨-, ⟨b, -, -, heq⟩ | heq⟩
  · rw [hnil]
    exact .nil
  · rw [heq]
    exact List.pairwise_singleton _ _
  · rw [heq, List.pairwise_map]
    have hp := holes_placed (j := j) hl.statements
    have ho := holes_ordered (j := j) hl.statements
    refine (joinSpans_parted hp ho).imp_of_mem ?_
    rintro r r' hr hr' ⟨k, hk, hk', hi⟩
    have hle : ∀ x ∈ joinSpans source (holes j source l.statements),
        x.start ≤ x.stop ∧ x.stop ≤ source.length := by
      intro x hx
      have hj := joinSpans_joined hp ho x hx
      obtain ⟨h, hh, h₁, h₂⟩ := hj.starts
      obtain ⟨h', hh', h₃⟩ := hj.stops
      have := (hp h hh).lt
      have := (hp h' hh').le
      omega
    obtain ⟨h₁, h₂⟩ := hle r hr
    obtain ⟨h₃, h₄⟩ := hle r' hr'
    exact Or.inl ((deleteLines_widens h₁ h₂).apart (deleteLines_widens h₃ h₄) hk hk' hi)

/-- From a list that holds a rename notice every hole is deleted. -/
theorem listEdits_covers (hl : l.Laid source lo hi) (hr : ∃ s ∈ l.statements, j.removes s = true)
    (hs : s ∈ l.statements) (hg : Goes j source s) :
    ∃ e ∈ listEdits j source l, e.start ≤ s.span.start ∧ s.span.stop ≤ e.stop := by
  rcases listEdits_cases j source l with ⟨hno, -⟩ | ⟨-, ⟨b, hb, -, heq⟩ | heq⟩
  · obtain ⟨x, hx, hrem⟩ := hr
    exact absurd hrem (hno x hx)
  · obtain ⟨rfl, -⟩ := hl.braces b hb
    rw [heq]
    exact ⟨_, List.mem_singleton.mpr rfl, hl.statements.bounds hs⟩
  · have hp := holes_placed (j := j) hl.statements
    have ho := holes_ordered (j := j) hl.statements
    obtain ⟨r, hr, h₁, h₂⟩ := joinSpans_covers hp ho s.span (mem_holes.mpr ⟨s, hs, hg, rfl⟩)
    obtain ⟨h, hh, hst⟩ := (joinSpans_joined hp ho r hr).stops
    have := (hl.statements.placed hs).lt
    have hw := deleteLines_widens (r := r) (by omega) (hst ▸ (hp h hh).le)
    have := hw.start_le
    have := hw.le_stop
    rw [heq]
    exact ⟨_, List.mem_map.mpr ⟨r, hr, rfl⟩, by omega, by omega⟩

end Laid

end Prune

end Polyfill
