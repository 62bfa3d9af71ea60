import Polyfill.Proofs.Prune.Lists

/-! # What goes from nested statement lists

A list lies inside a statement of the list around it. That statement stays, so what goes from the outer list is
apart from it, and with it from what goes from the inner one. The induction follows the walk through the tree;
its invariant `Tidy` says that all deletions of a part of the tree lie in the place of that part, are apart from
each other, and leave every statement alone that goes from no list.

* `Stmt.reached`, `reachedIn`: the statements that the walk comes to.
* `Tidy`: the invariant; `Block.tidy`: it holds of every block that lies well.
* `Carried`: what holds of the lists of every block that lies well, since a list hands it on. -/

namespace Polyfill

open Source Notice Text

namespace Source

mutual

/-- The statements that the walk comes to inside a statement. -/
def Stmt.reached (skip : Stmt → Bool) : Stmt → List Stmt
  | .block b => b.reached skip
  | .control _ _ bodies => bodiesReached skip bodies
  | _ => []

/-- The statements that the walk comes to in a block. -/
def Block.reached (skip : Stmt → Bool) : Block → List Stmt
  | .mk _ _ ss => reachedIn skip ss

/-- The statements that the walk comes to in a body. -/
def Body.reached (skip : Stmt → Bool) : Body → List Stmt
  | .block b => b.reached skip
  | .list ss => reachedIn skip ss
  | .single s => s :: s.reached skip

/-- The statements that the walk comes to in bodies. -/
def bodiesReached (skip : Stmt → Bool) : List Body → List Stmt
  | [] => []
  | b :: bs => b.reached skip ++ bodiesReached skip bs

/-- The statements of a list, and those that the walk comes to inside of them. -/
def reachedIn (skip : Stmt → Bool) : List Stmt → List Stmt
  | [] => []
  | s :: ss => s :: ((if skip s then [] else s.reached skip) ++ reachedIn skip ss)

end

theorem mem_listsOf {skip : Stmt → Bool} {l : StatementList} : ∀ {ss : List Stmt},
    l ∈ listsOf skip ss ↔ ∃ s ∈ ss, skip s = false ∧ l ∈ s.lists skip
  | [] => by simp [listsOf]
  | s :: ss => by
    rw [listsOf, List.mem_append, mem_listsOf]
    cases hs : skip s <;> simp [hs]

theorem mem_reachedIn {skip : Stmt → Bool} {x : Stmt} : ∀ {ss : List Stmt},
    x ∈ reachedIn skip ss ↔ x ∈ ss ∨ ∃ s ∈ ss, skip s = false ∧ x ∈ s.reached skip
  | [] => by simp [reachedIn]
  | s :: ss => by
    rw [reachedIn, List.mem_cons, List.mem_append, mem_reachedIn]
    cases hs : skip s <;> simp [hs] <;> tauto

/-! The walk comes to all statements of the lists that it visits. -/

section Reached

variable {skip : Stmt → Bool} {l : StatementList} {x : Stmt}

mutual

theorem Stmt.mem_reached : ∀ {s : Stmt}, l ∈ s.lists skip → x ∈ l.statements → x ∈ s.reached skip
  | .block b, hl, hx => by
    rw [Stmt.lists] at hl
    rw [Stmt.reached]
    exact Block.mem_reached hl hx
  | .control _ _ bodies, hl, hx => by
    rw [Stmt.lists] at hl
    rw [Stmt.reached]
    exact mem_bodiesReached hl hx
  | .expression .., hl, _ | .namespaceDecl .., hl, _ | .importDecl .., hl, _ | .classDecl .., hl, _
  | .functionDecl .., hl, _ | .other .., hl, _ => by simp [Stmt.lists] at hl

theorem Block.mem_reached : ∀ {b : Block}, l ∈ b.lists skip → x ∈ l.statements → x ∈ b.reached skip
  | .mk opening closing ss, hl, hx => by
    rw [Block.lists] at hl
    rw [Block.reached]
    rcases List.mem_cons.mp hl with rfl | hl
    · exact mem_reachedIn.mpr (Or.inl hx)
    · exact mem_reachedIn_of_list hl hx

theorem Body.mem_reached : ∀ {b : Body}, l ∈ b.lists skip → x ∈ l.statements → x ∈ b.reached skip
  | .block b, hl, hx => by
    rw [Body.lists] at hl
    rw [Body.reached]
    exact Block.mem_reached hl hx
  | .list ss, hl, hx => by
    rw [Body.lists] at hl
    rw [Body.reached]
    rcases List.mem_cons.mp hl with rfl | hl
    · exact mem_reachedIn.mpr (Or.inl hx)
    · exact mem_reachedIn_of_list hl hx
  | .single s, hl, hx => by
    rw [Body.lists] at hl
    rw [Body.reached]
    exact List.mem_cons_of_mem _ (Stmt.mem_reached hl hx)

theorem mem_bodiesReached : ∀ {bs : List Body}, l ∈ bodyLists skip bs → x ∈ l.statements →
    x ∈ bodiesReached skip bs
  | [], hl, _ => by simp [bodyLists] at hl
  | b :: bs, hl, hx => by
    rw [bodyLists] at hl
    rw [bodiesReached]
    rcases List.mem_append.mp hl with hl | hl
    · exact List.mem_append_left _ (Body.mem_reached hl hx)
    · exact List.mem_append_right _ (mem_bodiesReached hl hx)

theorem mem_reachedIn_of_list : ∀ {ss : List Stmt}, l ∈ listsOf skip ss → x ∈ l.statements →
    x ∈ reachedIn skip ss
  | [], hl, _ => by simp [listsOf] at hl
  | s :: ss, hl, hx => by
    rw [listsOf] at hl
    rw [reachedIn]
    refine List.mem_cons_of_mem _ (List.mem_append.mpr ?_)
    rcases List.mem_append.mp hl with hl | hl
    · left
      split at hl
      · cases hl
      · next hs =>
        rw [if_neg hs]
        exact Stmt.mem_reached hl hx
    · exact Or.inr (mem_reachedIn_of_list hl hx)

end

end Reached

end Source

namespace Prune

/-! ### Statements that hold lists -/

section Compound

variable {j : Judge} {s : Stmt} {l : StatementList}

/-- The statement holds statement lists that the walk looks for. -/
def IsCompound : Stmt → Prop
  | .block _ => True
  | .control _ _ _ => True
  | _ => False

theorem isCompound_of_mem_lists (h : l ∈ s.lists j.removes) : IsCompound s := by
  cases s with
  | block | control => trivial
  | _ => simp [Stmt.lists] at h

theorem isCompound_of_mem_reached {x : Stmt} (h : x ∈ s.reached j.removes) : IsCompound s := by
  cases s with
  | block | control => trivial
  | _ => simp [Stmt.reached] at h

end Compound

section Tidy

variable [SourceParser]

/-- The deletions from the lists `ls`, which all lie between the offsets `lo` and `hi`, are apart from each
other and leave those of the statements `rs` alone that go from no list. -/
structure Tidy (j : Judge) (source : Text) (lo hi : ℕ) (ls : List StatementList) (rs : List Stmt) : Prop where
  le : lo ≤ hi
  laid : ∀ l ∈ ls, ∃ a z, lo ≤ a ∧ z ≤ hi ∧ l.Laid source a z
  apart : (ls.flatMap (listEdits j source)).Pairwise Edit.Apart
  within : ∀ s ∈ rs, lo ≤ s.span.start ∧ s.span.stop ≤ hi
  placed : ∀ s ∈ rs, Placed source s.span
  spared : ∀ s ∈ rs, s.lists j.removes = [] →
    (∃ l ∈ ls, (∃ x ∈ l.statements, j.removes x = true) ∧ s ∈ l.statements ∧ Goes j source s) ∨
      ∀ l ∈ ls, ∀ e ∈ listEdits j source l, Spares source (· ∈ holes j source l.statements) e s

namespace Tidy

variable {j : Judge} {source : Text} {lo mid hi : ℕ} {l : StatementList} {ls ls' : List StatementList}
  {rs rs' : List Stmt} {e : Edit}

theorem nil (h : lo ≤ hi) : Tidy j source lo hi [] [] := ⟨h, by simp, by simp, by simp, by simp, by simp⟩

theorem inside (h : Tidy j source lo hi ls rs) (hv : Encoded source) (hl : l ∈ ls)
    (he : e ∈ listEdits j source l) : lo ≤ e.start ∧ e.stop ≤ hi := by
  obtain ⟨a, z, ha, hz, hlaid⟩ := h.laid l hl
  have hd := listEdits_deletion hv hlaid e he
  exact ⟨ha.trans hd.lo_le, hd.le_hi.trans hz⟩

theorem mono {lo' hi' : ℕ} (h : Tidy j source lo hi ls rs) (hlo : lo' ≤ lo) (hhi : hi ≤ hi') :
    Tidy j source lo' hi' ls rs where
  le := hlo.trans (h.le.trans hhi)
  laid l hl := by
    obtain ⟨a, z, ha, hz, hlaid⟩ := h.laid l hl
    exact ⟨a, z, hlo.trans ha, hz.trans hhi, hlaid⟩
  apart := h.apart
  within s hs := ⟨hlo.trans (h.within s hs).1, (h.within s hs).2.trans hhi⟩
  placed := h.placed
  spared := h.spared

/-- Parts of the tree that follow each other. -/
theorem append (hv : Encoded source) (h : Tidy j source lo mid ls rs) (h' : Tidy j source mid hi ls' rs') :
    Tidy j source lo hi (ls ++ ls') (rs ++ rs') where
  le := h.le.trans h'.le
  laid l hl := by
    rcases List.mem_append.mp hl with hl | hl
    · exact (h.mono le_rfl h'.le).laid l hl
    · exact (h'.mono h.le le_rfl).laid l hl
  apart := by
    rw [List.flatMap_append, List.pairwise_append]
    refine ⟨h.apart, h'.apart, fun e he e' he' => Or.inl ?_⟩
    obtain ⟨l, hl, he⟩ := List.mem_flatMap.mp he
    obtain ⟨l', hl', he'⟩ := List.mem_flatMap.mp he'
    exact (h.inside hv hl he).2.trans (h'.inside hv hl' he').1
  within s hs := by
    rcases List.mem_append.mp hs with hs | hs
    · exact (h.mono le_rfl h'.le).within s hs
    · exact (h'.mono h.le le_rfl).within s hs
  placed s hs := (List.mem_append.mp hs).elim (h.placed s) (h'.placed s)
  spared s hs hlists := by
    rcases List.mem_append.mp hs with hs | hs
    · rcases h.spared s hs hlists with ⟨l, hl, hg⟩ | hsp
      · exact Or.inl ⟨l, by simp [hl], hg⟩
      · refine Or.inr fun l hl e he => ?_
        rcases List.mem_append.mp hl with hl | hl
        · exact hsp l hl e he
        · exact Or.inr (Or.inl ((h.within s hs).2.trans (h'.inside hv hl he).1))
    · rcases h'.spared s hs hlists with ⟨l, hl, hg⟩ | hsp
      · exact Or.inl ⟨l, by simp [hl], hg⟩
      · refine Or.inr fun l hl e he => ?_
        rcases List.mem_append.mp hl with hl | hl
        · exact Or.inl ((h.inside hv hl he).2.trans (h'.within s hs).1)
        · exact hsp l hl e he

end Tidy

/-! ### The walk -/

section Walk

variable {j : Judge} {source : Text} {lo hi : ℕ} {s : Stmt} {l : StatementList} {e : Edit}

theorem not_goes_of_isCompound (h : IsCompound s) (hl : s.Laid source) (hp : Placed source s.span) :
    ¬ Goes j source s := by
  have hm : Marked source s.span ∧ j.removes s = false := by
    cases s with
    | block | control =>
      rw [Stmt.Laid] at hl
      exact ⟨hl.1, rfl⟩
    | _ => exact h.elim
  rintro (hg | hg)
  · rw [hm.2] at hg
    cases hg
  · rw [not_isStray_of_marked hm.1 hp.le] at hg
    cases hg

theorem Deletion.apart_compound (h : Deletion j source lo hi l e) (hl : l.Laid source lo hi)
    (hs : s ∈ l.statements) (hc : IsCompound s) : e.stop ≤ s.span.start ∨ s.span.stop ≤ e.start := by
  have hg := not_goes_of_isCompound (j := j) hc (hl.statements.laid hs) (hl.statements.placed hs)
  rcases h.spares s hs hg with h | h | ⟨⟨h, -⟩, -⟩
  · exact Or.inl h
  · exact Or.inr h
  · cases s with
    | other => exact hc.elim
    | _ => exact h.elim

/-- The lists inside the statements of a list. -/
theorem listsOf_tidy (hv : Encoded source) : ∀ {lo : ℕ} {ss : List Stmt}, listLaid source lo hi ss →
    (∀ s ∈ ss, Tidy j source s.span.start s.span.stop (s.lists j.removes) (s.reached j.removes)) →
    Tidy j source lo hi (listsOf j.removes ss)
      (ss.flatMap fun s => if j.removes s then [] else s.reached j.removes)
  | lo, [], hl, _ => .nil hl.le
  | lo, s :: ss, hl, ht => by
    have hp := hl.placed (List.mem_cons_self ..)
    rw [listLaid_cons] at hl
    have hs := ht s (by simp)
    have hhead : Tidy j source lo s.span.stop (if j.removes s then [] else s.lists j.removes)
        (if j.removes s then [] else s.reached j.removes) := by
      split
      · exact .nil (hl.1.trans hp.lt.le)
      · exact hs.mono hl.1 le_rfl
    rw [listsOf, List.flatMap_cons]
    exact hhead.append hv (listsOf_tidy hv hl.2.2.1 fun x hx => ht x (by simp [hx]))

/-- **The step of the induction**: a list on top of the lists inside its statements. -/
theorem list_tidy (hv : Encoded source) (hl : l.Laid source lo hi)
    (ht : ∀ s ∈ l.statements,
      Tidy j source s.span.start s.span.stop (s.lists j.removes) (s.reached j.removes)) :
    Tidy j source lo hi (l :: listsOf j.removes l.statements) (reachedIn j.removes l.statements) := by
  have hss := hl.statements
  have hin := listsOf_tidy hv hss ht
  have hd := listEdits_deletion (j := j) hv hl
  -- An inner deletion lies in a statement that holds its list.
  have hinner : ∀ l' ∈ listsOf j.removes l.statements, ∀ e ∈ listEdits j source l', ∃ s ∈ l.statements,
      IsCompound s ∧ l' ∈ s.lists j.removes ∧ s.span.start ≤ e.start ∧ e.stop ≤ s.span.stop := by
    intro l' hl' e he
    obtain ⟨s, hs, -, hls⟩ := mem_listsOf.mp hl'
    exact ⟨s, hs, isCompound_of_mem_lists hls, hls, (ht s hs).inside hv hls he⟩
  refine ⟨hss.le, fun l' hl' => ?_, ?_, fun s hs => ?_, fun s hs => ?_, fun s hs hlists => ?_⟩
  · rcases List.mem_cons.mp hl' with rfl | hl'
    · exact ⟨lo, hi, le_rfl, le_rfl, hl⟩
    · exact hin.laid l' hl'
  · rw [List.flatMap_cons, List.pairwise_append]
    refine ⟨listEdits_apart hl, hin.apart, fun e he e' he' => ?_⟩
    obtain ⟨l', hl', he'⟩ := List.mem_flatMap.mp he'
    obtain ⟨s, hs, hc, -, h₁, h₂⟩ := hinner l' hl' e' he'
    rcases (hd e he).apart_compound hl hs hc with h | h
    · exact Or.inl (h.trans h₁)
    · exact Or.inr (h₂.trans h)
  · rcases mem_reachedIn.mp hs with hs | ⟨x, hx, hr, hs⟩
    · exact hss.bounds hs
    · have h₁ := hss.bounds hx
      have h₂ := (ht x hx).within s hs
      omega
  · rcases mem_reachedIn.mp hs with hs | ⟨x, hx, -, hs⟩
    · exact hss.placed hs
    · exact (ht x hx).placed s hs
  · rcases mem_reachedIn.mp hs with hm | ⟨x, hx, hr, hm⟩
    · -- A statement of the list itself.
      by_cases hg : (∃ x ∈ l.statements, j.removes x = true) ∧ Goes j source s
      · exact Or.inl ⟨l, by simp, hg.1, hm, hg.2⟩
      · refine Or.inr fun l' hl' e he => ?_
        rcases List.mem_cons.mp hl' with rfl | hl'
        · exact (hd e he).spares s hm fun hgs => hg ⟨exists_removes he, hgs⟩
        · obtain ⟨x, hx, -, hlx, h₁, h₂⟩ := hinner l' hl' e he
          rcases hss.eq_or_apart hm hx with rfl | h | h
          · rw [hlists] at hlx
            cases hlx
          · exact Or.inr (Or.inl (h.trans h₁))
          · exact Or.inl (h₂.trans h)
    · -- A statement further inside.
      have hw := (ht x hx).within s hm
      rcases (ht x hx).spared s hm hlists with ⟨l', hl', hg⟩ | hsp
      · exact Or.inl ⟨l', by simp [mem_listsOf.mpr ⟨x, hx, hr, hl'⟩], hg⟩
      · refine Or.inr fun l' hl' e he => ?_
        rcases List.mem_cons.mp hl' with rfl | hl'
        · rcases (hd e he).apart_compound hl hx (isCompound_of_mem_reached hm) with h | h
          · exact Or.inl (h.trans hw.1)
          · exact Or.inr (Or.inl (hw.2.trans h))
        · obtain ⟨y, hy, -, hly, h₁, h₂⟩ := hinner l' hl' e he
          rcases hss.eq_or_apart hx hy with rfl | h | h
          · exact hsp l' hly e he
          · exact Or.inr (Or.inl (hw.2.trans (h.trans h₁)))
          · exact Or.inl (h₂.trans (h.trans hw.1))

theorem Block.list_laid {opening closing : Span} {ss : List Stmt}
    (h : (Block.mk opening closing ss).Laid source) :
    (Block.list (.mk opening closing ss)).Laid source opening.stop closing.start := by
  rw [Block.Laid] at h
  obtain ⟨ht, ho, hc, hss, hbefore, hbehind⟩ := h
  have := ho.lt
  refine ⟨hss, ⟨opening.stop - 1, by omega, ho.last.ink⟩, hc.first, fun b hb => ?_⟩
  cases hb
  exact ⟨rfl, ho.closes, hc.opens, ⟨_, opening, ht, by omega, by omega⟩, hbefore, hbehind⟩

mutual

theorem Stmt.tidy (hv : Encoded source) : ∀ s : Stmt, s.Laid source → s.span.start ≤ s.span.stop →
    Tidy j source s.span.start s.span.stop (s.lists j.removes) (s.reached j.removes)
  | .block b, h, _ => by
    rw [Stmt.Laid] at h
    rw [Stmt.lists, Stmt.reached]
    exact Block.tidy hv b h.2
  | .control span heads bodies, h, _ => by
    rw [Stmt.Laid] at h
    rw [Stmt.lists, Stmt.reached]
    exact bodies_tidy hv bodies h.2
  | .expression .., _, hle | .namespaceDecl .., _, hle | .importDecl .., _, hle
  | .classDecl .., _, hle | .functionDecl .., _, hle | .other .., _, hle => by
    simp only [Stmt.lists, Stmt.reached]
    exact .nil hle

theorem Block.tidy (hv : Encoded source) : ∀ b : Block, b.Laid source →
    Tidy j source b.opening.start b.closing.stop (b.lists j.removes) (b.reached j.removes)
  | .mk opening closing ss, h => by
    have hl := Block.list_laid h
    rw [Block.Laid] at h
    rw [Block.lists, Block.reached]
    exact (list_tidy hv hl (statements_tidy hv ss h.2.2.2.1)).mono h.2.1.lt.le h.2.2.1.lt.le

theorem Body.tidy (hv : Encoded source) : ∀ (b : Body) {lo hi : ℕ}, b.Laid source lo hi →
    Tidy j source lo hi (b.lists j.removes) (b.reached j.removes)
  | .block b, lo, hi, h => by
    rw [Body.Laid] at h
    rw [Body.lists, Body.reached]
    exact (Block.tidy hv b h.1).mono h.2.1 h.2.2
  | .list ss, lo, hi, h => by
    rw [Body.Laid] at h
    obtain ⟨a, z, ha, hz, hia, hiz, hss⟩ := h
    rw [Body.lists, Body.reached]
    have hl : StatementList.Laid source (a + 1) z ⟨none, ss⟩ := ⟨hss, ⟨a, rfl, hia⟩, hiz, by simp⟩
    exact (list_tidy hv hl (statements_tidy hv ss hss)).mono (by omega) (by omega)
  | .single s, lo, hi, h => by
    rw [Body.Laid] at h
    rw [Body.lists, Body.reached]
    have ht := (Stmt.tidy hv s h.1 h.2.2.1.lt.le).mono h.2.1 h.2.2.2
    refine { ht with within := ?_, placed := ?_, spared := ?_ }
    · intro x hx
      rcases List.mem_cons.mp hx with rfl | hx
      · exact ⟨h.2.1, h.2.2.2⟩
      · exact ht.within x hx
    · intro x hx
      rcases List.mem_cons.mp hx with rfl | hx
      · exact h.2.2.1
      · exact ht.placed x hx
    · intro x hx hlists
      rcases List.mem_cons.mp hx with rfl | hx
      · exact Or.inr (by simp [hlists])
      · exact ht.spared x hx hlists

theorem bodies_tidy (hv : Encoded source) : ∀ (bs : List Body) {lo hi : ℕ}, bodiesLaid source lo hi bs →
    Tidy j source lo hi (bodyLists j.removes bs) (bodiesReached j.removes bs)
  | [], lo, hi, h => by
    rw [bodiesLaid] at h
    rw [bodyLists, bodiesReached]
    exact .nil h
  | b :: bs, lo, hi, h => by
    rw [bodiesLaid] at h
    obtain ⟨mid, hb, hbs⟩ := h
    rw [bodyLists, bodiesReached]
    exact (Body.tidy hv b hb).append hv (bodies_tidy hv bs hbs)

theorem statements_tidy (hv : Encoded source) : ∀ (ss : List Stmt) {lo hi : ℕ}, listLaid source lo hi ss →
    ∀ s ∈ ss, Tidy j source s.span.start s.span.stop (s.lists j.removes) (s.reached j.removes)
  | [], _, _, _ => by simp
  | x :: ss, lo, hi, h => by
    have hp := h.placed (List.mem_cons_self ..)
    rw [listLaid_cons] at h
    intro s hs
    rcases List.mem_cons.mp hs with hx | hs
    · rw [hx]
      exact Stmt.tidy hv x h.2.1 hp.lt.le
    · exact statements_tidy hv ss h.2.2.1 s hs

end

/-! ### Properties that the walk keeps -/

/-- The property `P` of lists between two offsets goes on from the lists inside the statements of a list to the list
with all of them. -/
structure Carried (j : Judge) (source : Text) (P : ℕ → ℕ → List StatementList → Prop) : Prop where
  nil : ∀ {lo hi : ℕ}, P lo hi []
  mono : ∀ {lo hi lo' hi' : ℕ} {ls : List StatementList}, P lo hi ls → lo' ≤ lo → hi ≤ hi' → P lo' hi' ls
  append : ∀ {lo mid hi : ℕ} {ls ls' : List StatementList}, P lo mid ls → P mid hi ls' → lo ≤ mid → mid ≤ hi →
    P lo hi (ls ++ ls')
  list : ∀ {lo a z hi : ℕ} {l : StatementList}, l.Laid source a z → lo < a → z < hi →
    (∀ s ∈ l.statements, P s.span.start s.span.stop (s.lists j.removes)) →
    P a z (listsOf j.removes l.statements) → P lo hi (l :: listsOf j.removes l.statements)

section Carried

variable {P : ℕ → ℕ → List StatementList → Prop}

theorem Carried.listsOf (h : Carried j source P) : ∀ {lo : ℕ} {ss : List Stmt}, listLaid source lo hi ss →
    (∀ s ∈ ss, P s.span.start s.span.stop (s.lists j.removes)) → P lo hi (listsOf j.removes ss)
  | lo, [], _, _ => h.nil
  | lo, s :: ss, hl, hs => by
    have hp := hl.placed (List.mem_cons_self ..)
    have hb := hl.bounds (List.mem_cons_self ..)
    rw [listLaid_cons] at hl
    have hhead : P lo s.span.stop (if j.removes s then [] else s.lists j.removes) := by
      split
      · exact h.nil
      · exact h.mono (hs s (by simp)) hl.1 le_rfl
    rw [Source.listsOf]
    exact h.append hhead (h.listsOf hl.2.2.1 fun x hx => hs x (by simp [hx])) (hl.1.trans hp.lt.le) hb.2

mutual

theorem Carried.stmt (h : Carried j source P) : ∀ s : Stmt, s.Laid source →
    P s.span.start s.span.stop (s.lists j.removes)
  | .block b, hs => by
    rw [Stmt.Laid] at hs
    rw [Stmt.lists]
    exact h.block b hs.2
  | .control span heads bodies, hs => by
    rw [Stmt.Laid] at hs
    rw [Stmt.lists]
    exact h.bodies bodies hs.2
  | .expression .., _ | .namespaceDecl .., _ | .importDecl .., _ | .classDecl .., _ | .functionDecl .., _
  | .other .., _ => by
    simp only [Stmt.lists]
    exact h.nil

theorem Carried.block (h : Carried j source P) : ∀ b : Block, b.Laid source →
    P b.opening.start b.closing.stop (b.lists j.removes)
  | .mk opening closing ss, hb => by
    have hl := Block.list_laid hb
    rw [Block.Laid] at hb
    rw [Block.lists]
    have hs := h.statements ss hb.2.2.2.1
    exact h.list hl hb.2.1.lt hb.2.2.1.lt hs (h.listsOf hl.statements hs)

theorem Carried.body (h : Carried j source P) : ∀ (b : Body) {lo hi : ℕ}, b.Laid source lo hi →
    P lo hi (b.lists j.removes)
  | .block b, lo, hi, hb => by
    rw [Body.Laid] at hb
    rw [Body.lists]
    exact h.mono (h.block b hb.1) hb.2.1 hb.2.2
  | .list ss, lo, hi, hb => by
    rw [Body.Laid] at hb
    obtain ⟨a, z, ha, hz, hia, hiz, hss⟩ := hb
    rw [Body.lists]
    have hl : StatementList.Laid source (a + 1) z ⟨none, ss⟩ := ⟨hss, ⟨a, rfl, hia⟩, hiz, by simp⟩
    have hs := h.statements ss hss
    exact h.list hl (by omega) hz hs (h.listsOf hss hs)
  | .single s, lo, hi, hb => by
    rw [Body.Laid] at hb
    rw [Body.lists]
    exact h.mono (h.stmt s hb.1) hb.2.1 hb.2.2.2

theorem Carried.bodies (h : Carried j source P) : ∀ (bs : List Body) {lo hi : ℕ}, bodiesLaid source lo hi bs →
    P lo hi (bodyLists j.removes bs)
  | [], _, _, _ => by
    rw [bodyLists]
    exact h.nil
  | b :: bs, lo, hi, hbs => by
    rw [bodiesLaid] at hbs
    obtain ⟨mid, hb, hbs⟩ := hbs
    rw [bodyLists]
    exact h.append (h.body b hb) (h.bodies bs hbs) hb.le hbs.le

theorem Carried.statements (h : Carried j source P) : ∀ (ss : List Stmt) {lo hi : ℕ}, listLaid source lo hi ss →
    ∀ s ∈ ss, P s.span.start s.span.stop (s.lists j.removes)
  | [], _, _, _ => by simp
  | x :: ss, lo, hi, hl => by
    rw [listLaid_cons] at hl
    exact List.forall_mem_cons.mpr ⟨h.stmt x hl.2.1, h.statements ss hl.2.2.1⟩

end

end Carried

end Walk

end Tidy

end Prune

end Polyfill
