import Polyfill.Proofs.Prune.Survey

/-! # Slices that succeed

The walk slices the source at the places in the tree, and panics where a place leaves the source or cuts a character.
In a file that lies well none does, so what runs gives the deletions and the sites that the functions without a
question mark tell of.

* `listEdits?_eq`: the deletions from a list that lies well.
* `prune?_eq`: the pruning of a file that lies well.
* `survey?_eq`: its survey. -/

namespace Polyfill

open Source Notice Text

namespace Prune

variable {j : Judge} {source : Text}

/-! ### Single slices -/

theorem textAt?_of_placed {s : Span} (h : Placed source s) : textAt? source s = some (textAt source s) :=
  slice?_of_isBoundary h.lt.le h.opens h.closes

theorem deleteLines?_of_le {r : Span} (h : r.start ≤ source.length) (h' : r.stop ≤ source.length) :
    deleteLines? source r = some (deleteLines source r) := by
  rw [deleteLines?, expandToLine?, if_pos ⟨h, h'⟩]
  rfl

theorem mapM_eq_some_map {α β : Type} {f : α → Option β} {g : α → β} : ∀ {xs : List α},
    (∀ x ∈ xs, f x = some (g x)) → xs.mapM f = some (xs.map g)
  | [], _ => rfl
  | x :: xs, h => by
    have ih := mapM_eq_some_map fun y (hy : y ∈ xs) => h y (List.mem_cons_of_mem x hy)
    rw [List.mapM_cons, h x (List.mem_cons_self ..), ih]
    rfl

/-! ### One statement list -/

/-- No slice fails that starts and ends with a hole or a brace. -/
theorem blankOutside?_eq {stop : ℕ} (hstop : source.isBoundary stop = true) : ∀ {hs : List Span} {cursor : ℕ},
    source.isBoundary cursor = true → (∀ h ∈ hs, Placed source h) →
    blankOutside? source stop cursor hs = some (blankOutside source stop cursor hs)
  | [], cursor, hc, _ => by
    rw [blankOutside?, blankOutside]
    by_cases h : stop ≤ cursor
    · simp [h]
    · simp [h, slice?_of_isBoundary (by omega) hc hstop]
  | h :: hs, cursor, hc, hp => by
    have hh := hp h (by simp)
    have hc' : source.isBoundary (max cursor h.stop) = true := by
      rcases max_choice cursor h.stop with heq | heq <;> rw [heq]
      · exact hc
      · exact hh.closes
    have ih := blankOutside?_eq hstop hc' fun x hx => hp x (List.mem_cons_of_mem h hx)
    rw [blankOutside?, blankOutside, ih]
    by_cases hle : h.start ≤ cursor
    · simp [hle]
    · cases hb : (source.slice cursor h.start).isBlank <;>
        simp [hle, slice?_of_isBoundary (by omega) hc hh.opens, hb]

section Laid

variable [SourceParser] {l : StatementList} {lo hi : ℕ}

theorem holes?_eq (hl : l.Laid source lo hi) :
    holes? j source l.statements = some (holes j source l.statements) := by
  rw [holes?, mapM_eq_some_map fun s hs => textAt?_of_placed (hl.statements.placed hs), Option.map_some]

theorem collapses?_eq (hl : l.Laid source lo hi) : collapses? source l.braces (holes j source l.statements) =
    some (l.braces.filter fun b => blankOutside source b.stop b.start (holes j source l.statements)) := by
  cases hb : l.braces with
  | none => rfl
  | some b =>
    obtain ⟨rfl, hopens, hcloses, -⟩ := hl.braces b hb
    rw [collapses?, blankOutside?_eq hcloses hopens (holes_placed hl.statements)]
    rfl

theorem joined_le (hl : l.Laid source lo hi) {r : Span} (hr : r ∈ joinSpans source (holes j source l.statements)) :
    r.start ≤ source.length ∧ r.stop ≤ source.length := by
  have hp := holes_placed (j := j) hl.statements
  have hj := joinSpans_joined hp (holes_ordered hl.statements) r hr
  obtain ⟨h, hh, hstart, -⟩ := hj.starts
  obtain ⟨h', hh', hstop⟩ := hj.stops
  rw [hstart, hstop]
  exact ⟨((hp h hh).lt.trans_le (hp h hh).le).le, (hp h' hh').le⟩

/-- **No slice fails in a list that lies well.** -/
theorem listEdits?_eq (hl : l.Laid source lo hi) : listEdits? j source l = some (listEdits j source l) := by
  rw [listEdits?, listEdits]
  by_cases hr : l.statements.any j.removes = true
  · have hjoined := mapM_eq_some_map fun r (hr : r ∈ joinSpans source (holes j source l.statements)) =>
      deleteLines?_of_le (joined_le hl hr).1 (joined_le hl hr).2
    simp only [hr, if_true, holes?_eq hl, collapses?_eq hl, Option.bind_eq_bind, Option.bind_some]
    cases hb : l.braces with
    | none => exact hjoined
    | some b =>
      cases hblank : blankOutside source b.stop b.start (holes j source l.statements) with
      | true => simp [Option.filter_some, hblank]
      | false => simpa [Option.filter_some, hblank] using hjoined
  · simp [hr]

end Laid

/-! ### A file -/

theorem unusedImports?_eq : ∀ {is : List FacadeImport} {edits : List Edit}, (∀ i ∈ is, Placed source i.span) →
    unusedImports? source edits is =
      some ((unusedImports source edits is).map fun i => (i, deleteLines source i.span))
  | [], _, _ => rfl
  | i :: is, edits, hp => by
    have hi := hp i (by simp)
    have hdelete := deleteLines?_of_le (hi.lt.le.trans hi.le) hi.le
    have htail := fun x (hx : x ∈ is) => hp x (List.mem_cons_of_mem i hx)
    rw [unusedImports?, unusedImports]
    split
    · exact unusedImports?_eq htail
    · simp [textAt?_of_placed hi, hdelete, unusedImports?_eq htail]

/-- The site of a call that cuts no character. -/
def siteAt (source : Text) (x : Call) : Site := ⟨x.span.start, textAt source x.span, x.verdict⟩

theorem siteAt_span {x : Call} (h : Placed source x.span) : (siteAt source x).span = x.span := by
  have hlen : (textAt source x.span).length = x.span.stop - x.span.start := by
    have := h.le
    simp only [textAt, slice, List.length_take, List.length_drop]
    omega
  have := h.lt
  rw [Site.span, siteAt, hlen, Nat.add_sub_cancel' this.le]

section File

variable [SourceParser] {facade : Text} {p : Program} {n : ℕ} (hd : DeclaredIn source 0 n (declared p))
  (hv : Encoded source)
include hd

theorem soleImports_placed {i : FacadeImport} (hi : i ∈ soleImports facade p) : Placed source i.span := by
  obtain ⟨_, hs⟩ := mem_facadeImports (List.mem_of_mem_filter hi)
  exact (import_sealed hd hs).toPlaced

include hv

/-- **The pruning of a file that lies well does not panic.** -/
theorem prune?_eq : prune? facade j source p = some (prune facade j source p) := by
  have hlists : (visitedLists j.removes p).mapM (listEdits? j source) =
      some ((visitedLists j.removes p).map (listEdits j source)) :=
    mapM_eq_some_map fun l hl => by
      obtain ⟨a, z, hlaid⟩ := visitedLists_laid hd hv hl
      exact listEdits?_eq hlaid
  have himports : unusedImports? source (statementEdits j source p) (soleImports facade p) = some _ :=
    unusedImports?_eq fun i hi => soleImports_placed hd hi
  rw [statementEdits, List.flatMap_def] at himports
  rw [prune?, prune, droppedImports, statementEdits, List.flatMap_def, hlists]
  split <;> simp [himports, Function.comp_def]

/-- **The survey of a file that lies well does not panic.** -/
theorem survey?_eq : survey? j source p = some ((fileCalls j p).map (siteAt source)) :=
  mapM_eq_some_map fun x hx => by rw [siteAt?, textAt?_of_placed (fileCalls_placed hd hv hx)]; rfl

end File

end Prune

end Polyfill
