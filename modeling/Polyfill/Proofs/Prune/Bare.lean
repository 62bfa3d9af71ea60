import Polyfill.Proofs.Prune.Frame

/-! # Bare bodies

A bare body is a statement that a control structure governs without a list around it. If it went, the structure
would govern what follows. The walk looks into bare bodies, but what goes from a file goes from lists, and a list
inside a bare body has ink of that body on both sides. So a deletion lies in front of a bare body, behind it, or
between its first and its last byte. The induction follows the walk, as that over the deletions does.

* `bareBodies`: the bare bodies that the walk comes to.
* `Respects`: a deletion takes neither end of a place.
* `Guarded`: the invariant; `Block.guarded`: it holds of every block that lies well.
* `prune_respects`: no deletion of a file takes an end of a bare body. -/

namespace Polyfill

open Source Notice Text

namespace Source

mutual

/-- The bare bodies that the walk comes to inside a statement. -/
def Stmt.bares (skip : Stmt → Bool) : Stmt → List Stmt
  | .block b => b.bares skip
  | .control _ _ bodies => bodiesBares skip bodies
  | _ => []

/-- The bare bodies that the walk comes to in a block. -/
def Block.bares (skip : Stmt → Bool) : Block → List Stmt
  | .mk _ _ ss => baresIn skip ss

/-- The bare bodies that the walk comes to in a body, itself first if it is one. -/
def Body.bares (skip : Stmt → Bool) : Body → List Stmt
  | .block b => b.bares skip
  | .list ss => baresIn skip ss
  | .single s => s :: s.bares skip

/-- The bare bodies that the walk comes to in bodies. -/
def bodiesBares (skip : Stmt → Bool) : List Body → List Stmt
  | [] => []
  | b :: bs => b.bares skip ++ bodiesBares skip bs

/-- The bare bodies inside the statements that are not passed over. -/
def baresIn (skip : Stmt → Bool) : List Stmt → List Stmt
  | [] => []
  | s :: ss => (if skip s then [] else s.bares skip) ++ baresIn skip ss

end

/-- The bare bodies in all methods of a file, those passed over apart. -/
def bareBodies (skip : Stmt → Bool) (p : Program) : List Stmt := (methodBodies p).flatMap (Block.bares skip)

theorem mem_baresIn {skip : Stmt → Bool} {x : Stmt} : ∀ {ss : List Stmt},
    x ∈ baresIn skip ss ↔ ∃ s ∈ ss, skip s = false ∧ x ∈ s.bares skip
  | [] => by simp [baresIn]
  | s :: ss => by
    rw [baresIn, List.mem_append, mem_baresIn]
    cases hs : skip s <;> simp [hs]

end Source

namespace Prune

variable {j : Judge} {source : Text} {lo mid hi : ℕ} {l : StatementList} {ls ls' : List StatementList}
  {s : Stmt} {bs bs' : List Stmt} {e : Edit} {x : Span}

/-- The edit lies in front of the place, behind it, or between its first and its last byte. -/
def Respects (e : Edit) (x : Span) : Prop :=
  e.stop ≤ x.start ∨ x.stop ≤ e.start ∨ x.start < e.start ∧ e.stop < x.stop

theorem Respects.start (h : Respects e x) (hx : x.start < x.stop) : e.touches x.start = false := by
  rw [Edit.touches_eq_false_iff]
  rcases h with h | h | h <;> omega

theorem Respects.last (h : Respects e x) (hx : x.start < x.stop) : e.touches (x.stop - 1) = false := by
  rw [Edit.touches_eq_false_iff]
  rcases h with h | h | h <;> omega

theorem isCompound_of_mem_bares {skip : Stmt → Bool} {b : Stmt} (h : b ∈ s.bares skip) : IsCompound s := by
  cases s with
  | block | control => trivial
  | _ => simp [Stmt.bares] at h

/-- The deletions from the lists `ls` and the bare bodies `bs` lie between the offsets `lo` and `hi`, and the
deletions take no end of a bare body. -/
structure Guarded (j : Judge) (source : Text) (lo hi : ℕ) (ls : List StatementList) (bs : List Stmt) : Prop where
  inside : ∀ l ∈ ls, ∀ e ∈ listEdits j source l, lo ≤ e.start ∧ e.stop ≤ hi
  within : ∀ b ∈ bs, lo ≤ b.span.start ∧ b.span.stop ≤ hi
  placed : ∀ b ∈ bs, Placed source b.span
  respects : ∀ b ∈ bs, ∀ l ∈ ls, ∀ e ∈ listEdits j source l, Respects e b.span

namespace Guarded

theorem nil : Guarded j source lo hi [] [] := ⟨by simp, by simp, by simp, by simp⟩

theorem mono {lo' hi' : ℕ} (h : Guarded j source lo hi ls bs) (hlo : lo' ≤ lo) (hhi : hi ≤ hi') :
    Guarded j source lo' hi' ls bs where
  inside l hl e he := ⟨hlo.trans (h.inside l hl e he).1, (h.inside l hl e he).2.trans hhi⟩
  within b hb := ⟨hlo.trans (h.within b hb).1, (h.within b hb).2.trans hhi⟩
  placed := h.placed
  respects := h.respects

theorem append (h : Guarded j source lo mid ls bs) (h' : Guarded j source mid hi ls' bs') (hlo : lo ≤ mid)
    (hhi : mid ≤ hi) : Guarded j source lo hi (ls ++ ls') (bs ++ bs') where
  inside l hl := (List.mem_append.mp hl).elim ((h.mono le_rfl hhi).inside l) ((h'.mono hlo le_rfl).inside l)
  within b hb := (List.mem_append.mp hb).elim ((h.mono le_rfl hhi).within b) ((h'.mono hlo le_rfl).within b)
  placed b hb := (List.mem_append.mp hb).elim (h.placed b) (h'.placed b)
  respects b hb l hl e he := by
    rcases List.mem_append.mp hb with hb | hb
    · rcases List.mem_append.mp hl with hl | hl
      · exact h.respects b hb l hl e he
      · exact Or.inr (Or.inl ((h.within b hb).2.trans (h'.inside l hl e he).1))
    · rcases List.mem_append.mp hl with hl | hl
      · exact Or.inl ((h.inside l hl e he).2.trans (h'.within b hb).1)
      · exact h'.respects b hb l hl e he

end Guarded

/-! ### Lists have ink of their statement around them -/

section Laid

variable [SourceParser]

/-- The lists that the walk comes to lie strictly between the ends of what is around them. -/
theorem lists_between_carried :
    Carried j source fun lo hi ls => ∀ l ∈ ls, ∃ a z, lo < a ∧ z < hi ∧ l.Laid source a z where
  nil := by simp
  mono h hlo hhi l hl := by
    obtain ⟨a, z, ha, hz, hlaid⟩ := h l hl
    exact ⟨a, z, hlo.trans_lt ha, hz.trans_le hhi, hlaid⟩
  append h h' hlo hhi l hl := by
    rcases List.mem_append.mp hl with hl | hl
    · obtain ⟨a, z, ha, hz, hlaid⟩ := h l hl
      exact ⟨a, z, ha, hz.trans_le hhi, hlaid⟩
    · obtain ⟨a, z, ha, hz, hlaid⟩ := h' l hl
      exact ⟨a, z, hlo.trans_lt ha, hz, hlaid⟩
  list hlaid ha hz _ hin l hl := by
    rcases List.mem_cons.mp hl with rfl | hl
    · exact ⟨_, _, ha, hz, hlaid⟩
    · obtain ⟨a', z', ha', hz', hlaid'⟩ := hin l hl
      exact ⟨a', z', ha.trans ha', hz'.trans hz, hlaid'⟩

theorem respects_own_lists (hv : Encoded source) (h : s.Laid source) (hl : l ∈ s.lists j.removes)
    (he : e ∈ listEdits j source l) : Respects e s.span := by
  obtain ⟨a, z, ha, hz, hlaid⟩ := lists_between_carried.stmt s h l hl
  have hd := listEdits_deletion hv hlaid e he
  exact Or.inr (Or.inr ⟨ha.trans_le hd.lo_le, hd.le_hi.trans_lt hz⟩)

/-! ### The walk -/

theorem listsOf_guarded : ∀ {lo : ℕ} {ss : List Stmt}, listLaid source lo hi ss →
    (∀ s ∈ ss, Guarded j source s.span.start s.span.stop (s.lists j.removes) (s.bares j.removes)) →
    Guarded j source lo hi (listsOf j.removes ss) (baresIn j.removes ss)
  | lo, [], _, _ => .nil
  | lo, s :: ss, hl, ht => by
    have hp := hl.placed (List.mem_cons_self ..)
    have hb := hl.bounds (List.mem_cons_self ..)
    rw [listLaid_cons] at hl
    have hhead : Guarded j source lo s.span.stop (if j.removes s then [] else s.lists j.removes)
        (if j.removes s then [] else s.bares j.removes) := by
      split
      · exact .nil
      · exact (ht s (by simp)).mono hl.1 le_rfl
    rw [listsOf, baresIn]
    exact hhead.append (listsOf_guarded hl.2.2.1 fun x hx => ht x (by simp [hx])) (hl.1.trans hp.lt.le) hb.2

/-- **The step of the induction**: a list on top of the lists inside its statements. What goes from the list
itself is apart from the statements that hold bare bodies. -/
theorem list_guarded (hv : Encoded source) (hl : l.Laid source lo hi)
    (ht : ∀ s ∈ l.statements, Guarded j source s.span.start s.span.stop (s.lists j.removes) (s.bares j.removes)) :
    Guarded j source lo hi (l :: listsOf j.removes l.statements) (baresIn j.removes l.statements) := by
  have hin := listsOf_guarded hl.statements ht
  have hd := listEdits_deletion (j := j) hv hl
  refine { hin with inside := ?_, respects := ?_ }
  · intro l' hl' e he
    rcases List.mem_cons.mp hl' with rfl | hl'
    · exact ⟨(hd e he).lo_le, (hd e he).le_hi⟩
    · exact hin.inside l' hl' e he
  · intro b hb l' hl' e he
    rcases List.mem_cons.mp hl' with rfl | hl'
    · obtain ⟨s, hs, -, hbs⟩ := mem_baresIn.mp hb
      have hw := (ht s hs).within b hbs
      rcases (hd e he).apart_compound hl hs (isCompound_of_mem_bares hbs) with h | h
      · exact Or.inl (h.trans hw.1)
      · exact Or.inr (Or.inl (hw.2.trans h))
    · exact hin.respects b hb l' hl' e he

mutual

theorem Stmt.guarded (hv : Encoded source) : ∀ s : Stmt, s.Laid source →
    Guarded j source s.span.start s.span.stop (s.lists j.removes) (s.bares j.removes)
  | .block b, h => by
    rw [Stmt.Laid] at h
    rw [Stmt.lists, Stmt.bares]
    exact Block.guarded hv b h.2
  | .control span heads bodies, h => by
    rw [Stmt.Laid] at h
    rw [Stmt.lists, Stmt.bares]
    exact bodies_guarded hv bodies h.2
  | .expression .., _ | .namespaceDecl .., _ | .importDecl .., _ | .classDecl .., _ | .functionDecl .., _
  | .other .., _ => by
    simp only [Stmt.lists, Stmt.bares]
    exact .nil

theorem Block.guarded (hv : Encoded source) : ∀ b : Block, b.Laid source →
    Guarded j source b.opening.start b.closing.stop (b.lists j.removes) (b.bares j.removes)
  | .mk opening closing ss, h => by
    have hl := Block.list_laid h
    rw [Block.Laid] at h
    rw [Block.lists, Block.bares]
    exact (list_guarded hv hl (statements_guarded hv ss h.2.2.2.1)).mono h.2.1.lt.le h.2.2.1.lt.le

theorem Body.guarded (hv : Encoded source) : ∀ (b : Body) {lo hi : ℕ}, b.Laid source lo hi →
    Guarded j source lo hi (b.lists j.removes) (b.bares j.removes)
  | .block b, lo, hi, h => by
    rw [Body.Laid] at h
    rw [Body.lists, Body.bares]
    exact (Block.guarded hv b h.1).mono h.2.1 h.2.2
  | .list ss, lo, hi, h => by
    rw [Body.Laid] at h
    obtain ⟨a, z, ha, hz, hia, hiz, hss⟩ := h
    rw [Body.lists, Body.bares]
    have hl : StatementList.Laid source (a + 1) z ⟨none, ss⟩ := ⟨hss, ⟨a, rfl, hia⟩, hiz, by simp⟩
    exact (list_guarded hv hl (statements_guarded hv ss hss)).mono (by omega) (by omega)
  | .single s, lo, hi, h => by
    rw [Body.Laid] at h
    rw [Body.lists, Body.bares]
    have hs := Stmt.guarded hv s h.1
    refine Guarded.mono ?_ h.2.1 h.2.2.2
    refine { hs with within := ?_, placed := ?_, respects := ?_ }
    · exact List.forall_mem_cons.mpr ⟨⟨le_rfl, le_rfl⟩, hs.within⟩
    · exact List.forall_mem_cons.mpr ⟨h.2.2.1, hs.placed⟩
    · exact List.forall_mem_cons.mpr ⟨fun l hl e he => respects_own_lists hv h.1 hl he, hs.respects⟩

theorem bodies_guarded (hv : Encoded source) : ∀ (bs : List Body) {lo hi : ℕ}, bodiesLaid source lo hi bs →
    Guarded j source lo hi (bodyLists j.removes bs) (bodiesBares j.removes bs)
  | [], _, _, _ => by
    rw [bodyLists, bodiesBares]
    exact .nil
  | b :: bs, lo, hi, h => by
    rw [bodiesLaid] at h
    obtain ⟨mid, hb, hbs⟩ := h
    rw [bodyLists, bodiesBares]
    exact (Body.guarded hv b hb).append (bodies_guarded hv bs hbs) hb.le hbs.le

theorem statements_guarded (hv : Encoded source) : ∀ (ss : List Stmt) {lo hi : ℕ}, listLaid source lo hi ss →
    ∀ s ∈ ss, Guarded j source s.span.start s.span.stop (s.lists j.removes) (s.bares j.removes)
  | [], _, _, _ => by simp
  | x :: ss, lo, hi, h => by
    rw [listLaid_cons] at h
    exact List.forall_mem_cons.mpr ⟨Stmt.guarded hv x h.2.1, statements_guarded hv ss h.2.2.1⟩

end

/-! ### The bare bodies of a file -/

section File

variable {facade : Text} {p : Program} {n : ℕ} (hd : DeclaredIn source 0 n (declared p)) (hv : Encoded source)
include hd hv

theorem bare_placed (hs : s ∈ bareBodies j.removes p) : Placed source s.span := by
  obtain ⟨b, hb, hs⟩ := List.mem_flatMap.mp hs
  exact (Block.guarded hv b (methodBodies_laid hd hb)).placed s hs

/-- **No deletion of a file takes an end of a bare body.** -/
theorem prune_respects (hs : s ∈ bareBodies j.removes p) (he : e ∈ (prune facade j source p).edits) :
    Respects e s.span := by
  obtain ⟨b, hb, hs⟩ := List.mem_flatMap.mp hs
  have hg := Block.guarded (j := j) hv b (methodBodies_laid hd hb)
  have hw := hg.within s hs
  rcases prune_edit_cases hd hv hb he with ⟨l, hl, he⟩ | h | h
  · exact hg.respects s hs l hl e he
  · exact Or.inl (h.trans hw.1)
  · exact Or.inr (Or.inl (hw.2.trans h))

/-- What goes lies in a deletion. -/
theorem Gone.covered (hx : Gone facade j source p x) :
    ∃ e ∈ (prune facade j source p).edits, e.start ≤ x.start ∧ x.stop ≤ e.stop := by
  have hlists : ∀ l ∈ visitedLists j.removes p, (∃ s ∈ l.statements, j.removes s = true) →
      ∀ s ∈ l.statements, Goes j source s →
      ∃ e ∈ (prune facade j source p).edits, e.start ≤ s.span.start ∧ s.span.stop ≤ e.stop := by
    intro l hl hr s hs hg
    obtain ⟨a, z, hlaid⟩ := visitedLists_laid hd hv hl
    obtain ⟨e, he, hcov⟩ := listEdits_covers hlaid hr hs hg
    exact ⟨e, List.mem_append_left _ (List.mem_flatMap.mpr ⟨l, hl, he⟩), hcov⟩
  cases hx with
  | notice hl hs hr => exact hlists _ hl ⟨_, hs, hr⟩ _ hs (Or.inl hr)
  | stray hl hr hs hg => exact hlists _ hl hr _ hs (Or.inr hg)
  | @unused i hi =>
    obtain ⟨_, ho⟩ := origin_of_import hd hi
    have hw := deleteLines_widens ho.inked.lt.le ho.inked.le
    have he := List.mem_map_of_mem (f := deleteLines source) (List.mem_map_of_mem (f := FacadeImport.span) hi)
    exact ⟨_, List.mem_append_right _ he, hw.start_le, hw.le_stop⟩

theorem Gone.respects (hx : Gone facade j source p x) (hs : s ∈ bareBodies j.removes p) :
    x.stop ≤ s.span.start ∨ s.span.stop ≤ x.start ∨ s.span.start < x.start ∧ x.stop < s.span.stop := by
  obtain ⟨e, he, h₁, h₂⟩ := hx.covered hd hv
  rcases prune_respects hd hv hs he with h | h | h
  · exact Or.inl (h₂.trans h)
  · exact Or.inr (Or.inl (h.trans h₁))
  · exact Or.inr (Or.inr ⟨h.1.trans_le h₁, h₂.trans_lt h.2⟩)

theorem bare_apart_rename {t : Mapping.Table} {entry : Mapping.Entry} {r : Rename}
    (hs : s ∈ bareBodies j.removes p) (hr : r ∈ renames t entry p) :
    r.edit.stop ≤ s.span.start ∨ s.span.stop ≤ r.edit.start := by
  obtain ⟨b, hb, hs⟩ := List.mem_flatMap.mp hs
  have hw := (Block.guarded (j := j) hv b (methodBodies_laid hd hb)).within s hs
  rcases body_apart_rename hd hb hr with h | h
  · exact Or.inr (hw.2.trans h)
  · exact Or.inl (h.trans hw.1)

end File

end Laid

end Prune

end Polyfill
