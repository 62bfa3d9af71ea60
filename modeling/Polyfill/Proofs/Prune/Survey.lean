import Polyfill.Proofs.Prune.Frame

/-! # What the survey lists

The survey and the pruning walk through the tree in different ways: the survey enters a statement that is no
site, the pruning one that stays. They agree, since a statement on which there is a verdict is an expression and
holds no list. The induction follows the tree, as that over the deletions does; its invariant `Surveyed` says
that the calls of a part come in source order, are statements of lists that the pruning visits, and that as many
of them go as rename notices are counted there.

* `IsCallOf`: the call is a statement.
* `Surveyed`: the invariant; `Block.surveyed`: it holds of every block that lies well.
* `fileCalls_surveyed`: the calls of a file.
* `calls_covered`, `calls_kept`: what becomes of the calls of a file. -/

namespace Polyfill

open Source Notice Text

namespace Prune

variable {j : Judge} {source : Text} {lo mid hi : ℕ} {s : Stmt} {ss ss' : List Stmt}
  {ls ls' : List StatementList} {x : Call} {xs xs' : List Call}

/-- The call is the statement, with the verdict on it. -/
def IsCallOf (j : Judge) (s : Stmt) (x : Call) : Prop := j.inspect s = some x.verdict ∧ x.span = s.span

/-- The call goes. -/
def Call.goes (x : Call) : Bool := x.verdict == .remove

/-! ### Statements with a verdict -/

theorem exists_of_inspect {v : Verdict} (h : j.inspect s = some v) :
    ∃ span e, s = .expression span e ∧ e.IsCandidate := by
  cases s with
  | expression span e =>
    refine ⟨span, e, rfl, ?_⟩
    cases e with
    | parens | staticCall => trivial
    | _ => simp [Judge.inspect, Judge.inspectExpr] at h
  | _ => simp [Judge.inspect] at h

theorem lists_of_inspect {skip : Stmt → Bool} {v : Verdict} (h : j.inspect s = some v) : s.lists skip = [] := by
  obtain ⟨span, e, rfl, -⟩ := exists_of_inspect h
  rfl

theorem removes_iff : j.removes s = true ↔ j.inspect s = some .remove := by
  rw [Judge.removes, Judge.classify, beq_iff_eq]
  cases j.inspect s with
  | none => simp
  | some v => simp

/-! ### The invariant -/

/-- The calls `xs` between the offsets `lo` and `hi` come in source order, each is that of one of the statements
`ss` or of a statement of one of the lists `ls`, and as many of them go as there are rename notices in these. -/
structure Surveyed (j : Judge) (source : Text) (lo hi : ℕ) (ss : List Stmt) (ls : List StatementList)
    (xs : List Call) : Prop where
  le : lo ≤ hi
  within : ∀ x ∈ xs, lo ≤ x.span.start ∧ x.span.start < x.span.stop ∧ x.span.stop ≤ hi
  ordered : xs.Pairwise fun x y => x.span.stop ≤ y.span.start
  sound : ∀ x ∈ xs, ∃ s, (s ∈ ss ∨ ∃ l ∈ ls, s ∈ l.statements) ∧ IsCallOf j s x
  count : (xs.filter Call.goes).length = (ss.filter j.removes).length + (ls.flatMap (listRemoved j)).length

namespace Surveyed

theorem nil (h : lo ≤ hi) : Surveyed j source lo hi [] [] [] :=
  ⟨h, by simp, by simp, by simp, by simp⟩

theorem mono {lo' hi' : ℕ} (h : Surveyed j source lo hi ss ls xs) (hlo : lo' ≤ lo) (hhi : hi ≤ hi') :
    Surveyed j source lo' hi' ss ls xs :=
  { h with
    le := hlo.trans (h.le.trans hhi)
    within := fun x hx => ⟨hlo.trans (h.within x hx).1, (h.within x hx).2.1, (h.within x hx).2.2.trans hhi⟩ }

/-- Parts of the tree that follow each other. -/
theorem append (h : Surveyed j source lo mid ss ls xs) (h' : Surveyed j source mid hi ss' ls' xs') :
    Surveyed j source lo hi (ss ++ ss') (ls ++ ls') (xs ++ xs') where
  le := h.le.trans h'.le
  within x hx := by
    rcases List.mem_append.mp hx with hx | hx
    · exact (h.mono le_rfl h'.le).within x hx
    · exact (h'.mono h.le le_rfl).within x hx
  ordered := List.pairwise_append.mpr ⟨h.ordered, h'.ordered, fun x hx y hy =>
    (h.within x hx).2.2.trans (h'.within y hy).1⟩
  sound x hx := by
    rcases List.mem_append.mp hx with hx | hx
    · obtain ⟨s, hs | ⟨l, hl, hs⟩, hx⟩ := h.sound x hx
      · exact ⟨s, Or.inl (by simp [hs]), hx⟩
      · exact ⟨s, Or.inr ⟨l, by simp [hl], hs⟩, hx⟩
    · obtain ⟨s, hs | ⟨l, hl, hs⟩, hx⟩ := h'.sound x hx
      · exact ⟨s, Or.inl (by simp [hs]), hx⟩
      · exact ⟨s, Or.inr ⟨l, by simp [hl], hs⟩, hx⟩
  count := by
    have h₁ := h.count
    have h₂ := h'.count
    simp only [List.filter_append, List.flatMap_append, List.length_append] at h₁ h₂ ⊢
    omega

theorem list {b : Option Span} (h : Surveyed j source lo hi ss ls xs) :
    Surveyed j source lo hi [] (⟨b, ss⟩ :: ls) xs :=
  { h with
    sound := fun x hx => by
      obtain ⟨s, hs | ⟨l, hl, hs⟩, hx⟩ := h.sound x hx
      · exact ⟨s, Or.inr ⟨⟨b, ss⟩, by simp, hs⟩, hx⟩
      · exact ⟨s, Or.inr ⟨l, by simp [hl], hs⟩, hx⟩
    count := by
      rw [h.count, List.flatMap_cons, List.length_append, listRemoved]
      simp }

end Surveyed

/-- A statement of a list, with what is inside of it. -/
theorem surveyed_statement (hp : Placed source s.span)
    (h : Surveyed j source s.span.start s.span.stop [] (s.lists j.removes) (innerCalls j s)) :
    Surveyed j source s.span.start s.span.stop [s] (if j.removes s then [] else s.lists j.removes)
      (match j.inspect s with
        | some v => [⟨s.span, v⟩]
        | none => innerCalls j s) := by
  cases hv : j.inspect s with
  | none =>
    have hr : j.removes s = false := by rw [Bool.eq_false_iff, ne_eq, removes_iff, hv]; simp
    rw [if_neg (by simp [hr])]
    refine { h with sound := fun x hx => ?_, count := by simp [hr, h.count] }
    obtain ⟨s', hs | hs, hx⟩ := h.sound x hx
    · cases hs
    · exact ⟨s', Or.inr hs, hx⟩
  | some v =>
    have hlt := hp.lt
    refine ⟨hlt.le, by simp [hlt], by simp, fun x hx => ?_, ?_⟩
    · rw [List.mem_singleton] at hx
      exact ⟨s, Or.inl (by simp), hx ▸ ⟨hv, rfl⟩⟩
    · -- Nothing is counted inside, whether the statement goes or not.
      have hls : (if j.removes s then [] else s.lists j.removes) = [] := by
        rw [lists_of_inspect hv, ite_self]
      have hgoes : Call.goes ⟨s.span, v⟩ = j.removes s := by
        rw [Bool.eq_iff_iff, removes_iff, hv]
        simp [Call.goes]
      rw [hls]
      simp [List.filter_cons, hgoes]
      split <;> rfl

/-! ### Lists that lie well -/

section Laid

variable [SourceParser]

theorem not_isStray_of_inspect {v : Verdict} (h : j.inspect s = some v) (hl : s.Laid source)
    (hp : Placed source s.span) : isStray source s = false := by
  obtain ⟨span, e, rfl, hc⟩ := exists_of_inspect h
  rw [Stmt.Laid] at hl
  exact not_isStray_of_marked (hl hc) hp.le

mutual

theorem Stmt.surveyed : ∀ s : Stmt, s.Laid source → s.span.start ≤ s.span.stop →
    Surveyed j source s.span.start s.span.stop [] (s.lists j.removes) (innerCalls j s)
  | .block b, h, _ => by
    rw [Stmt.Laid] at h
    rw [Stmt.lists, innerCalls]
    exact Block.surveyed b h.2
  | .control span heads bodies, h, _ => by
    rw [Stmt.Laid] at h
    rw [Stmt.lists, innerCalls]
    exact bodies_surveyed bodies h.2
  | .expression .., _, hle | .namespaceDecl .., _, hle | .importDecl .., _, hle
  | .classDecl .., _, hle | .functionDecl .., _, hle | .other .., _, hle => by
    simp only [Stmt.lists, innerCalls]
    exact .nil hle

theorem Block.surveyed : ∀ b : Block, b.Laid source →
    Surveyed j source b.opening.start b.closing.stop [] (b.lists j.removes) (blockCalls j b)
  | .mk opening closing ss, h => by
    rw [Block.Laid] at h
    rw [Block.lists, blockCalls]
    exact (statements_surveyed ss h.2.2.2.1).list.mono h.2.1.lt.le h.2.2.1.lt.le

theorem Body.surveyed : ∀ (b : Body) {lo hi : ℕ}, b.Laid source lo hi →
    Surveyed j source lo hi [] (b.lists j.removes) (bodyCalls j b)
  | .block b, lo, hi, h => by
    rw [Body.Laid] at h
    rw [Body.lists, bodyCalls]
    exact (Block.surveyed b h.1).mono h.2.1 h.2.2
  | .list ss, lo, hi, h => by
    rw [Body.Laid] at h
    obtain ⟨a, z, ha, hz, -, -, hss⟩ := h
    rw [Body.lists, bodyCalls]
    exact (statements_surveyed ss hss).list.mono (by omega) (by omega)
  | .single s, lo, hi, h => by
    rw [Body.Laid] at h
    rw [Body.lists, bodyCalls]
    exact (Stmt.surveyed s h.1 h.2.2.1.lt.le).mono h.2.1 h.2.2.2

theorem bodies_surveyed : ∀ (bs : List Body) {lo hi : ℕ}, bodiesLaid source lo hi bs →
    Surveyed j source lo hi [] (bodyLists j.removes bs) (bodiesCalls j bs)
  | [], lo, hi, h => by
    rw [bodiesLaid] at h
    rw [bodyLists, bodiesCalls]
    exact .nil h
  | b :: bs, lo, hi, h => by
    rw [bodiesLaid] at h
    obtain ⟨mid, hb, hbs⟩ := h
    rw [bodyLists, bodiesCalls]
    exact (Body.surveyed b hb).append (bodies_surveyed bs hbs)

theorem statements_surveyed : ∀ (ss : List Stmt) {lo hi : ℕ}, listLaid source lo hi ss →
    Surveyed j source lo hi ss (listsOf j.removes ss) (callsOf j ss)
  | [], lo, hi, h => by
    rw [listLaid_nil] at h
    rw [listsOf, callsOf]
    exact .nil h
  | s :: ss, lo, hi, h => by
    have hp := h.placed (List.mem_cons_self ..)
    rw [listLaid_cons] at h
    rw [listsOf, callsOf]
    have hs := surveyed_statement hp (Stmt.surveyed s h.2.1 hp.lt.le)
    exact (hs.mono h.1 le_rfl).append (statements_surveyed ss h.2.2.1)

end

/-! ### The sites of a file -/

theorem blocks_surveyed : ∀ {lo : ℕ} {bs : List Block}, (∀ b ∈ bs, b.Laid source) →
    (bs.Pairwise fun a b => a.place.stop ≤ b.place.start) → (∀ b ∈ bs, lo ≤ b.place.start) →
    lo ≤ source.length →
    Surveyed j source lo source.length [] (bs.flatMap (Block.lists j.removes)) (bs.flatMap (blockCalls j))
  | lo, [], _, _, _, hle => .nil hle
  | lo, b :: bs, hl, ho, hlo, _ => by
    obtain ⟨hb, hbs⟩ := List.pairwise_cons.mp ho
    have hlaid := hl b (by simp)
    rw [List.flatMap_cons, List.flatMap_cons]
    refine ((Block.surveyed b hlaid).mono (hlo b (by simp)) le_rfl).append ?_
    exact blocks_surveyed (fun x hx => hl x (by simp [hx])) hbs hb hlaid.solid.le

section File

variable {facade : Text} {p : Program} {hi : ℕ} (hd : DeclaredIn source 0 hi (declared p))
include hd

/-- **The survey of a file agrees with the walk of the pruning.** -/
theorem fileCalls_surveyed :
    Surveyed j source 0 source.length [] (visitedLists j.removes p) (fileCalls j p) :=
  blocks_surveyed (fun _ => methodBodies_laid hd) (methodBodies_ordered hd) (fun _ _ => Nat.zero_le _)
    (Nat.zero_le _)

theorem exists_of_mem_fileCalls (hv : Encoded source) (hx : x ∈ fileCalls j p) :
    ∃ l ∈ visitedLists j.removes p, ∃ a z, l.Laid source a z ∧ ∃ s ∈ l.statements, IsCallOf j s x := by
  obtain ⟨s, hs | ⟨l, hl, hs⟩, hcall⟩ := (fileCalls_surveyed hd).sound x hx
  · cases hs
  · obtain ⟨a, z, hlaid⟩ := visitedLists_laid hd hv hl
    exact ⟨l, hl, a, z, hlaid, s, hs, hcall⟩

theorem fileCalls_placed (hv : Encoded source) (hx : x ∈ fileCalls j p) : Placed source x.span := by
  obtain ⟨l, -, a, z, hlaid, s, hs, hcall⟩ := exists_of_mem_fileCalls hd hv hx
  exact hcall.2 ▸ hlaid.statements.placed hs

/-- A call that goes lies in a deletion. -/
theorem calls_covered (hv : Encoded source) (hx : x ∈ fileCalls j p) (hr : x.verdict = .remove) :
    ∃ e ∈ (prune facade j source p).edits, e.start ≤ x.span.start ∧ x.span.stop ≤ e.stop := by
  obtain ⟨l, hl, a, z, hlaid, s, hs, hcall⟩ := exists_of_mem_fileCalls hd hv hx
  have hrem : j.removes s = true := removes_iff.mpr (hr ▸ hcall.1)
  obtain ⟨e, he, h⟩ := listEdits_covers hlaid ⟨s, hs, hrem⟩ hs (Or.inl hrem)
  rw [hcall.2]
  exact ⟨e, List.mem_append_left _ (List.mem_flatMap.mpr ⟨l, hl, he⟩), h⟩

/-- A call that stays is apart from all deletions. -/
theorem calls_kept (hv : Encoded source) (hx : x ∈ fileCalls j p) (hk : x.verdict = .keep) {e : Edit}
    (he : e ∈ (prune facade j source p).edits) : e.stop ≤ x.span.start ∨ x.span.stop ≤ e.start := by
  obtain ⟨l, hl, a, z, hlaid, s, hs, hcall⟩ := exists_of_mem_fileCalls hd hv hx
  obtain ⟨b, hb, hl⟩ := List.mem_flatMap.mp hl
  have hp := hlaid.statements.placed hs
  rw [hcall.2]
  have hgoes : ¬ Goes j source s := by
    rintro (h | h)
    · rw [removes_iff, hcall.1, hk] at h
      cases h
    · rw [not_isStray_of_inspect hcall.1 (hlaid.statements.laid hs) hp] at h
      cases h
  rcases prune_spares hd hv hb (Block.mem_reached hl hs) (lists_of_inspect hcall.1) with ⟨_, _, _, _, h⟩ | h
  · exact absurd h hgoes
  · obtain ⟨span, expr, rfl, -⟩ := exists_of_inspect hcall.1
    rcases h e he with h | h | ⟨⟨h, -⟩, -⟩
    · exact Or.inl h
    · exact Or.inr h
    · exact h.elim

end File

end Laid

end Prune

end Polyfill
