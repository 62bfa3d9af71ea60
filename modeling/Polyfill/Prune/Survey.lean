import Polyfill.Prune.Lists

/-! # The survey of a file

The survey lists the calls of the facade that pruning looks at, with the verdict on each, in source
order. -/

namespace Polyfill.Prune

open Source Notice

/-- A statement on which there is a verdict. -/
structure Call where
  span : Span
  verdict : Verdict
  deriving DecidableEq

mutual

/-- The calls inside a statement that is none itself. -/
def innerCalls (j : Judge) : Stmt → List Call
  | .block b => blockCalls j b
  | .control _ _ bodies => bodiesCalls j bodies
  | _ => []

/-- The calls in a block. -/
def blockCalls (j : Judge) : Block → List Call
  | .mk _ _ ss => callsOf j ss

/-- The calls in a body. A bare statement is not looked at, but what is inside of it is. -/
def bodyCalls (j : Judge) : Body → List Call
  | .block b => blockCalls j b
  | .list ss => callsOf j ss
  | .single s => innerCalls j s

/-- The calls in bodies. -/
def bodiesCalls (j : Judge) : List Body → List Call
  | [] => []
  | b :: bs => bodyCalls j b ++ bodiesCalls j bs

/-- The calls in a statement list. -/
def callsOf (j : Judge) : List Stmt → List Call
  | [] => []
  | s :: ss =>
    (match j.inspect s with
      | some v => [⟨s.span, v⟩]
      | none => innerCalls j s) ++ callsOf j ss

end

/-- The calls in the methods of a file. -/
def fileCalls (j : Judge) (p : Program) : List Call := (methodBodies p).flatMap (blockCalls j)

/-- A call of the facade and what becomes of it. -/
structure Site where
  /-- The offset of the statement. -/
  offset : Nat
  /-- The text of the whole statement. -/
  text : Text
  verdict : Verdict
  deriving DecidableEq

/-- The place of a site. -/
def Site.span (s : Site) : Span := ⟨s.offset, s.offset + s.text.length⟩

/-- The site of a call. -/
def siteAt? (source : Text) (c : Call) : Option Site :=
  (textAt? source c.span).map fun text => ⟨c.span.start, text, c.verdict⟩

/-- **The sites of a file.** -/
def survey? (j : Judge) (source : Text) (p : Program) : Option (List Site) := (fileCalls j p).mapM (siteAt? source)

end Polyfill.Prune
