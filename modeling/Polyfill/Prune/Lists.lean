import Polyfill.Edit.Line
import Polyfill.Notice.Detector
import Polyfill.Source.Walk
import Polyfill.Text.Blank

/-! # Pruning a statement list

From a list that holds rename notices, the notices go together with stray semicolons. If that leaves
nothing but white space between the braces of the list, all between them goes. Otherwise notices that
only white space parts go as one range, and a range that stands alone on its lines takes them along. A
bare statement is no element of a list and never goes.

The places of statements come from a parser, and a slice that leaves the source or cuts a character makes the
walk panic. What runs are the functions with a question mark, which give nothing there; those without one say what is
given otherwise. -/

namespace Polyfill.Prune

open Source Notice

/-- The text of a range. -/
def textAt (source : Text) (span : Span) : Text := source.slice span.start span.stop

/-- The text of a range that cuts no character. -/
def textAt? (source : Text) (span : Span) : Option Text := source.slice? span.start span.stop

/-- The statement is a semicolon alone. -/
def isStray (source : Text) (s : Stmt) : Bool := (textAt source s.span).trim == [0x3B]

/-- The ranges that go from a list: those of its rename notices and of its stray semicolons. -/
def holes (j : Judge) (source : Text) (ss : List Stmt) : List Span :=
  (ss.filter fun s => j.removes s || isStray source s).map Stmt.span

/-- The ranges that go from a list, whose statements are all looked at. -/
def holes? (j : Judge) (source : Text) (ss : List Stmt) : Option (List Span) :=
  (ss.mapM fun s => textAt? source s.span).map fun _ => holes j source ss

/-- Only white space stands between `cursor` and `stop` outside the holes. -/
def blankOutside (source : Text) (stop : Nat) : (cursor : Nat) → List Span → Bool
  | cursor, [] => stop ≤ cursor || (source.slice cursor stop).isBlank
  | cursor, h :: hs =>
    (h.start ≤ cursor || (source.slice cursor h.start).isBlank) &&
      blankOutside source stop (max cursor h.stop) hs

/-- Only white space stands between `cursor` and `stop` outside the holes. What is behind the first gap that holds
more is not looked at. -/
def blankOutside? (source : Text) (stop : Nat) : (cursor : Nat) → List Span → Option Bool
  | cursor, [] => if stop ≤ cursor then some true else (source.slice? cursor stop).map Text.isBlank
  | cursor, h :: hs =>
    if h.start ≤ cursor then blankOutside? source stop (max cursor h.stop) hs
    else do
      if (← source.slice? cursor h.start).isBlank then blankOutside? source stop (max cursor h.stop) hs
      else return false

/-- The ranges behind `current`, and itself, with those joined that only white space parts. -/
def joinFrom (source : Text) (current : Span) : List Span → List Span
  | [] => [current]
  | s :: ss =>
    if (source.slice? current.stop s.start).any Text.isBlank then
      joinFrom source ⟨current.start, s.stop⟩ ss
    else current :: joinFrom source s ss

/-- The ranges with those joined that only white space parts. -/
def joinSpans (source : Text) : List Span → List Span
  | [] => []
  | s :: ss => joinFrom source s ss

/-- The deletion of a range, of whole lines where it stands alone on them. -/
def deleteLines (source : Text) (span : Span) : Edit :=
  let (start, stop) := expandToLine source span.start span.stop
  .delete start stop

/-- The deletion of a range whose ends lie in the source. -/
def deleteLines? (source : Text) (span : Span) : Option Edit :=
  (expandToLine? source span.start span.stop).map fun (start, stop) => .delete start stop

/-- The deletions from one statement list. -/
def listEdits (j : Judge) (source : Text) (l : StatementList) : List Edit :=
  if l.statements.any j.removes then
    let hs := holes j source l.statements
    match l.braces with
    | some inside =>
      if blankOutside source inside.stop inside.start hs then [.delete inside.start inside.stop]
      else (joinSpans source hs).map (deleteLines source)
    | none => (joinSpans source hs).map (deleteLines source)
  else []

/-- All between the braces of a list goes, if there are any and only white space is left between them. -/
def collapses? (source : Text) (braces : Option Span) (hs : List Span) : Option (Option Span) :=
  match braces with
  | none => some none
  | some inside => do
    return if ← blankOutside? source inside.stop inside.start hs then some inside else none

/-- **The deletions from one statement list.** -/
def listEdits? (j : Judge) (source : Text) (l : StatementList) : Option (List Edit) := do
  if l.statements.any j.removes then
    let hs ← holes? j source l.statements
    match ← collapses? source l.braces hs with
    | some inside => return [.delete inside.start inside.stop]
    | none => (joinSpans source hs).mapM (deleteLines? source)
  else return []

/-- The rename notices in one statement list. -/
def listRemoved (j : Judge) (l : StatementList) : List Stmt := l.statements.filter j.removes

end Polyfill.Prune
