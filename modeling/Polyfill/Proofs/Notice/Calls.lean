import Polyfill.Proofs.Prune.Survey
import Polyfill.Source.Parse
import Polyfill.Transform

/-! # What a rename notice runs

The verdict on a statement rests on its *spine*: the call of a notice, or the call of a wrapper with what its
callback runs, down to the notices in it. All of these calls are calls of the facade that count. The verdict does
not look for calls beside the spine: in the arguments of a notice, in the arguments of a wrapper behind its callback,
and in the attributes and default values of the callback's parameters. What is called there goes with the statement.

* `Stmt.calls`: the calls in a statement, at any depth.
* `Judge.beside`: the expressions beside the spine.
* `calls_recognized_iff`: a rename notice runs nothing but calls of the facade that count if and only if what stands
  beside its spine does.
* `notice_runs_other_calls`: it can run other calls. -/

namespace Polyfill

open Source Notice Mapping

/-! ### Calls -/

namespace Source

mutual

/-- The calls in an expression, itself first if it is one. -/
def Expr.calls : Expr → List Expr
  | .name _ => []
  | .string _ => []
  | .parens e => e.calls
  | .binary l r => l.calls ++ r.calls
  | .call callee args => .call callee args :: (callee.calls ++ callsInArgs args)
  | .staticCall target method args =>
    .staticCall target method args :: (target.calls ++ (method.calls ++ callsInArgs args))
  | .closure parts body => callsIn parts ++ body.calls
  | .arrow parts e => callsIn parts ++ e.calls
  | .anonymousClass parts ms => callsIn parts ++ callsInMembers ms
  | .compound _ parts => callsIn parts

/-- The calls in expressions. -/
def callsIn : List Expr → List Expr
  | [] => []
  | e :: es => e.calls ++ callsIn es

/-- The calls in the value of an argument. -/
def Arg.calls : Arg → List Expr
  | .mk _ e => e.calls

/-- The calls in arguments. -/
def callsInArgs : List Arg → List Expr
  | [] => []
  | a :: as => a.calls ++ callsInArgs as

/-- The calls in what computes the name of a member. -/
def Selector.calls : Selector → List Expr
  | .named _ => []
  | .computed parts => callsIn parts

/-- The calls in a block. -/
def Block.calls : Block → List Expr
  | .mk _ _ ss => callsInStatements ss

/-- The calls in a body. -/
def Body.calls : Body → List Expr
  | .block b => b.calls
  | .list ss => callsInStatements ss
  | .single s => s.calls

/-- The calls in bodies. -/
def callsInBodies : List Body → List Expr
  | [] => []
  | b :: bs => b.calls ++ callsInBodies bs

/-- The calls in a statement, at any depth. -/
def Stmt.calls : Stmt → List Expr
  | .expression _ e => e.calls
  | .block b => b.calls
  | .control _ heads bodies => callsIn heads ++ callsInBodies bodies
  | .namespaceDecl _ _ ss => callsInStatements ss
  | .importDecl _ _ => []
  | .classDecl _ _ parts ms => callsIn parts ++ callsInMembers ms
  | .functionDecl _ parts b => callsIn parts ++ b.calls
  | .other _ parts ss => callsIn parts ++ callsInStatements ss

/-- The calls in statements. -/
def callsInStatements : List Stmt → List Expr
  | [] => []
  | s :: ss => s.calls ++ callsInStatements ss

/-- The calls in a member of a class. -/
def Member.calls : Member → List Expr
  | .method _ parts none => callsIn parts
  | .method _ parts (some b) => callsIn parts ++ b.calls
  | .other parts => callsIn parts

/-- The calls in the members of a class. -/
def callsInMembers : List Member → List Expr
  | [] => []
  | m :: ms => m.calls ++ callsInMembers ms

end

theorem callsIn_eq_flatMap : ∀ es : List Expr, callsIn es = es.flatMap Expr.calls
  | [] => rfl
  | e :: es => by rw [callsIn, callsIn_eq_flatMap es, List.flatMap_cons]

theorem callsInArgs_eq : ∀ as : List Arg, callsInArgs as = callsIn (as.map Arg.value)
  | [] => rfl
  | .mk _ e :: as => by
    rw [callsInArgs, Arg.calls, callsInArgs_eq as, List.map_cons, callsIn, Arg.value]

end Source

/-! ### Beside the spine -/

namespace Notice.Judge

mutual

/-- What stands in an expression beside the spine of a rename notice. -/
def besideExpr (j : Judge) : Expr → List Expr
  | .parens e => besideExpr j e
  | .staticCall _ (.named method) args =>
    if j.isNotice method.text then args.map Arg.value else besideCallback j args
  | _ => []

/-- What stands beside the spine in the arguments of a wrapper: all but its callback count as a whole. -/
def besideCallback (j : Judge) : List Arg → List Expr
  | [] => []
  | .mk _ callback :: args => besideFunction j callback ++ args.map Arg.value

/-- What stands beside the spine in a callback. -/
def besideFunction (j : Judge) : Expr → List Expr
  | .parens e => besideFunction j e
  | .closure parts (.mk _ _ ss) => parts ++ besideStatements j ss
  | .arrow parts e => parts ++ besideExpr j e
  | _ => []

/-- What stands beside the spines of rename notices. -/
def besideStatements (j : Judge) : List Stmt → List Expr
  | [] => []
  | s :: ss => beside j s ++ besideStatements j ss

/-- **What stands in a statement beside the spine of a rename notice.** -/
def beside (j : Judge) : Stmt → List Expr
  | .expression _ e => besideExpr j e
  | _ => []

end

/-- The call is one of the facade that counts. -/
def recognizes (j : Judge) (call : Expr) : Bool := (j.inspectExpr call).isSome

/-! ### The calls of a rename notice -/

/-- The judge recognizes all the calls. -/
def RecognizesAll (j : Judge) (calls : List Expr) : Prop := ∀ x ∈ calls, j.recognizes x = true

variable {j : Judge}

theorem recognizesAll_append {xs ys : List Expr} :
    j.RecognizesAll (xs ++ ys) ↔ j.RecognizesAll xs ∧ j.RecognizesAll ys := List.forall_mem_append

theorem recognizesAll_cons {x : Expr} {xs : List Expr} (h : j.recognizes x = true) :
    j.RecognizesAll (x :: xs) ↔ j.RecognizesAll xs := by
  rw [RecognizesAll, List.forall_mem_cons]
  exact and_iff_right h

theorem callsIn_append (es es' : List Expr) : callsIn (es ++ es') = callsIn es ++ callsIn es' := by
  rw [callsIn_eq_flatMap, callsIn_eq_flatMap, callsIn_eq_flatMap, List.flatMap_append]

-- The induction follows the verdict: each case splits off what stands beside the spine, and the calls on the spine
-- are those on which the verdict was asked.
mutual

theorem besideExpr_iff : ∀ e : Expr, j.inspectExpr e = some .remove →
    (j.RecognizesAll e.calls ↔ j.RecognizesAll (callsIn (j.besideExpr e)))
  | .parens e, h => by
    rw [inspectExpr] at h
    rw [Expr.calls, besideExpr]
    exact besideExpr_iff e h
  | .staticCall (.name target) (.named method) args, h => by
    have hself : j.recognizes (.staticCall (.name target) (.named method) args) = true := by
      rw [recognizes, h, Option.isSome_some]
    rw [Expr.calls, Expr.calls, Selector.calls, List.nil_append, List.nil_append, recognizesAll_cons hself,
      besideExpr]
    rw [inspectExpr] at h
    split at h
    · split at h
      · next hn => rw [if_pos hn, callsInArgs_eq]
      · next hn =>
        split at h
        · rw [if_neg hn]
          exact besideCallback_iff args (Option.some.inj h)
        · cases h
    · cases h
  | .staticCall (.name _) (.computed _) _, h | .staticCall (.string _) _ _, h | .staticCall (.parens _) _ _, h
  | .staticCall (.binary _ _) _ _, h | .staticCall (.call _ _) _ _, h | .staticCall (.staticCall _ _ _) _ _, h
  | .staticCall (.closure _ _) _ _, h | .staticCall (.arrow _ _) _ _, h
  | .staticCall (.anonymousClass _ _) _ _, h | .staticCall (.compound _ _) _ _, h
  | .name _, h | .string _, h | .binary _ _, h | .call _ _, h | .closure _ _, h | .arrow _ _, h
  | .anonymousClass _ _, h | .compound _ _, h => by simp [inspectExpr] at h

theorem besideCallback_iff : ∀ args : List Arg, j.inspectCallback args = .remove →
    (j.RecognizesAll (callsInArgs args) ↔ j.RecognizesAll (callsIn (j.besideCallback args)))
  | [], h => by simp [inspectCallback] at h
  | .mk _ callback :: args, h => by
    rw [inspectCallback] at h
    rw [callsInArgs, Arg.calls, besideCallback, callsIn_append, recognizesAll_append, recognizesAll_append,
      besideFunction_iff callback h, callsInArgs_eq]

theorem besideFunction_iff : ∀ e : Expr, j.inspectFunction e = .remove →
    (j.RecognizesAll e.calls ↔ j.RecognizesAll (callsIn (j.besideFunction e)))
  | .parens e, h => by
    rw [inspectFunction] at h
    rw [Expr.calls, besideFunction]
    exact besideFunction_iff e h
  | .closure parts (.mk _ _ ss), h => by
    rw [inspectFunction] at h
    split at h
    · next hss =>
      rw [Expr.calls, Block.calls, besideFunction, callsIn_append, recognizesAll_append, recognizesAll_append,
        besideStatements_iff ss (Bool.and_eq_true_iff.mp hss).2]
    · cases h
  | .arrow parts e, h => by
    rw [inspectFunction] at h
    have he : j.inspectExpr e = some .remove := by
      cases hv : j.inspectExpr e with
      | none => simp [hv] at h
      | some v => simpa [hv] using h
    rw [Expr.calls, besideFunction, callsIn_append, recognizesAll_append, recognizesAll_append,
      besideExpr_iff e he]
  | .name _, h | .string _, h | .binary _ _, h | .call _ _, h | .staticCall _ _ _, h | .anonymousClass _ _, h
  | .compound _ _, h => by simp [inspectFunction] at h

theorem besideStatements_iff : ∀ ss : List Stmt, j.allRemoved ss = true →
    (j.RecognizesAll (callsInStatements ss) ↔ j.RecognizesAll (callsIn (j.besideStatements ss)))
  | [], _ => by rw [callsInStatements, besideStatements, callsIn]
  | s :: ss, h => by
    rw [allRemoved, Bool.and_eq_true, beq_iff_eq] at h
    rw [callsInStatements, besideStatements, callsIn_append, recognizesAll_append, recognizesAll_append,
      beside_iff s h.1, besideStatements_iff ss h.2]

theorem beside_iff : ∀ s : Stmt, j.inspect s = some .remove →
    (j.RecognizesAll s.calls ↔ j.RecognizesAll (callsIn (j.beside s)))
  | .expression _ e, h => by
    rw [inspect] at h
    rw [Stmt.calls, beside]
    exact besideExpr_iff e h
  | .block _, h | .control _ _ _, h | .namespaceDecl _ _ _, h | .importDecl _ _, h | .classDecl _ _ _ _, h
  | .functionDecl _ _ _, h | .other _ _ _, h => by simp [inspect] at h

end

end Notice.Judge

open Notice.Judge

/-- **A statement that goes runs nothing but calls of the facade that count if and only if this is so of what stands
beside its spine**: the arguments of its notices, the arguments of its wrappers behind their callbacks, and the
attributes and default values of the callbacks' parameters. -/
theorem calls_recognized_iff (settings : Settings) (aliases : List Text) (tokens : List Notice.Token) {s : Stmt}
    (h : (Judge.ofSettings settings aliases tokens).removes s = true) :
    let j := Judge.ofSettings settings aliases tokens
    (∀ call ∈ s.calls, j.recognizes call = true) ↔
      ∀ e ∈ j.beside s, ∀ call ∈ e.calls, j.recognizes call = true := by
  intro j
  refine (beside_iff s (Prune.removes_iff.mp h)).trans ?_
  rw [callsIn_eq_flatMap]
  exact ⟨fun h e he x hx => h x (List.mem_flatMap.mpr ⟨e, he, hx⟩), fun h x hx => by
    obtain ⟨e, he, hx⟩ := List.mem_flatMap.mp hx
    exact h e he x hx⟩

/-- A wrapper whose callback holds one notice: two calls, both of the facade. -/
theorem calls_recognized_iff_sample :
    let source := Text.ofString ("<?php\nclass A \x7b function f() \x7b " ++
      "Deprecation::withSuppressedNotice(function () \x7b Deprecation::notice('renamed to B'); \x7d); \x7d \x7d")
    let j := Judge.ofSettings {} [] []
    ∃ p, parse? source = some p ∧ ∃ l ∈ visitedLists j.removes p, ∃ s ∈ l.statements,
      j.removes s = true ∧ s.calls.length = 2 ∧ ∀ call ∈ s.calls, j.recognizes call = true := by
  intro source j
  have h : ((parse? source).any fun p => (visitedLists j.removes p).any fun l => l.statements.any fun s =>
      j.removes s && (s.calls.length == 2 && (j.beside s).all (·.calls.isEmpty))) = true := by decide +kernel
  obtain ⟨p, hp, h⟩ := (Option.any_eq_true _ _).mp h
  obtain ⟨l, hl, h⟩ := List.any_eq_true.mp h
  obtain ⟨s, hs, h⟩ := List.any_eq_true.mp h
  simp only [Bool.and_eq_true, beq_iff_eq, List.all_eq_true, List.isEmpty_iff] at h
  refine ⟨p, hp, l, hl, s, hs, h.1, h.2.1, (calls_recognized_iff {} [] [] h.1).mpr fun e he x hx => ?_⟩
  rw [h.2.2 e he] at hx
  cases hx

/-- **A statement that goes can run other calls**: here one in an argument of a notice, and one in an argument of a
wrapper behind its callback. -/
theorem notice_runs_other_calls :
    let source := Text.ofString ("<?php\nclass A \x7b function f() \x7b " ++
      "Deprecation::notice('renamed to B', audit());\n" ++
      "Deprecation::withSuppressedNotice(fn () => Deprecation::notice('renamed to B'), audit()); \x7d \x7d")
    let j := Judge.ofSettings {} [] []
    ∃ p, parse? source = some p ∧ ∃ l ∈ visitedLists j.removes p, l.statements.length = 2 ∧
      ∀ s ∈ l.statements, j.classify s = .remove ∧ ∃ call ∈ s.calls, j.recognizes call = false := by
  intro source j
  have h : ((parse? source).any fun p => (visitedLists j.removes p).any fun l => l.statements.length == 2 &&
      l.statements.all fun s => j.classify s == .remove && s.calls.any fun x => !j.recognizes x) = true := by
    decide +kernel
  obtain ⟨p, hp, h⟩ := (Option.any_eq_true _ _).mp h
  obtain ⟨l, hl, h⟩ := List.any_eq_true.mp h
  simp only [Bool.and_eq_true, beq_iff_eq, List.all_eq_true, List.any_eq_true, Bool.not_eq_true'] at h
  exact ⟨p, hp, l, hl, h⟩

end Polyfill
