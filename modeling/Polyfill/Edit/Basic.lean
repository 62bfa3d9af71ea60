import Polyfill.Text.Basic

/-! # Edits of a text

An edit replaces the bytes of a range. A text is changed by a list of edits whose ranges all refer
to the text as it was; they are applied in one pass from left to right, so everything outside the
ranges keeps its bytes.

* `Edit.sort`: the edits by start, then by end; edits of one range keep their order.
* `applyEdits`: the edited text. An edit that leaves the text or reaches back behind its
  predecessor is refused, and so is one that would cut a character. -/

namespace Polyfill

/-- Replace the bytes from `start` up to `stop`. -/
structure Edit where
  start : Nat
  stop : Nat
  replacement : Text
  deriving DecidableEq

namespace Edit

/-- Delete the bytes from `start` up to `stop`. -/
def delete (start stop : Nat) : Edit := ⟨start, stop, []⟩

/-- The range of `b` lies within that of `a`. -/
def covers (a b : Edit) : Bool := a.start ≤ b.start && b.stop ≤ a.stop

/-- The offset `i` lies in the range of the edit. -/
def touches (e : Edit) (i : Nat) : Bool := e.start ≤ i && i < e.stop

/-- The order of application: by start, then by end. -/
def le (a b : Edit) : Bool := a.start < b.start || (a.start == b.start && a.stop ≤ b.stop)

/-- Put an edit in front of the first one that does not come before it. -/
def insertSorted (e : Edit) : List Edit → List Edit
  | [] => [e]
  | x :: xs => if le e x then e :: x :: xs else x :: insertSorted e xs

/-- The edits in the order of application; edits of one range keep their order. -/
def sort : List Edit → List Edit
  | [] => []
  | e :: es => insertSorted e (sort es)

/-- Why edits cannot be applied. -/
inductive Fault where
  /-- The edit that starts at `offset` leaves the text, is reversed, or overlaps its
  predecessor. -/
  | overlap (offset : Nat)
  /-- An edit begins or ends inside a character. -/
  | splitCharacter
  deriving DecidableEq

end Edit

/-- The source from `cursor` on, with the given sorted edits applied. -/
def applySorted (source : Text) : (cursor : Nat) → List Edit → Except Edit.Fault Text
  | cursor, [] =>
    match source.slice? cursor source.length with
    | none => .error .splitCharacter
    | some rest => .ok rest
  | cursor, e :: es =>
    if e.start < cursor ∨ e.stop < e.start ∨ source.length < e.stop then .error (.overlap e.start)
    else
      match source.slice? cursor e.start with
      | none => .error .splitCharacter
      | some kept => (applySorted source e.stop es).map fun rest => kept ++ e.replacement ++ rest

/-- The source with the edits applied, in whatever order they are given. -/
def applyEdits (source : Text) (edits : List Edit) : Except Edit.Fault Text :=
  applySorted source 0 (Edit.sort edits)

end Polyfill
