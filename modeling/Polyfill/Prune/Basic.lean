import Polyfill.Prune.Imports
import Polyfill.Prune.Survey

/-! # Pruning a file

Every statement list of every method is pruned, and then, if anything was removed, the imports of the
facade that have become unused.

* `prune?`: what runs; it gives nothing where a slice fails.
* `prune`: what it gives otherwise. -/

namespace Polyfill.Prune

open Source Notice

/-- What pruning does to a file. -/
structure Pruned where
  /-- The deletions. -/
  edits : List Edit
  /-- The number of rename notices removed. -/
  removed : Nat
  /-- The places of the removed notices, in source order. -/
  notices : List Span
  /-- The places of the dropped imports. -/
  imports : List Span
  deriving DecidableEq

/-- The deletions from all statement lists of a file. -/
def statementEdits (j : Judge) (source : Text) (p : Program) : List Edit :=
  (visitedLists j.removes p).flatMap (listEdits j source)

/-- The number of rename notices in all statement lists of a file. -/
def removedCount (j : Judge) (p : Program) : Nat :=
  ((visitedLists j.removes p).flatMap (listRemoved j)).length

/-- The places of the rename notices that are removed. -/
def noticeSpans (j : Judge) (p : Program) : List Span :=
  ((fileCalls j p).filter (·.verdict == .remove)).map (·.span)

/-- The imports that go if anything is removed. -/
def soleImports (facade : Text) (p : Program) : List FacadeImport := (facadeImports facade p).filter (·.sole)

/-- The imports of the facade that go, if anything was removed. -/
def droppedImports (facade : Text) (j : Judge) (source : Text) (p : Program) : List FacadeImport :=
  if removedCount j p = 0 then [] else unusedImports source (statementEdits j source p) (soleImports facade p)

/-- The pruning of a file, whose facade has the given name. -/
def prune (facade : Text) (j : Judge) (source : Text) (p : Program) : Pruned :=
  let dropped := (droppedImports facade j source p).map (·.span)
  {
    edits := statementEdits j source p ++ dropped.map (deleteLines source)
    removed := removedCount j p
    notices := noticeSpans j p
    imports := dropped }

/-- **The pruning of a file**, whose facade has the given name. -/
def prune? (facade : Text) (j : Judge) (source : Text) (p : Program) : Option Pruned := do
  let edits := (← (visitedLists j.removes p).mapM (listEdits? j source)).flatten
  let dropped ←
    if removedCount j p = 0 then pure [] else unusedImports? source edits (soleImports facade p)
  return {
    edits := edits ++ dropped.map (·.2)
    removed := removedCount j p
    notices := noticeSpans j p
    imports := dropped.map (·.1.span) }

end Polyfill.Prune
