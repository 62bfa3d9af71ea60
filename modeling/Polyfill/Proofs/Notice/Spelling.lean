import Polyfill.Proofs.Prune.Aliases

/-! # Verdicts and spelling

A verdict does not depend on how a call is spelled. The *plain* form of a statement has no positions, small letters in
the names of the classes and methods of its static calls, and no parentheses. Only those around the class of a static
call stay: what stands in them is computed, and no name of a class. The verdict on a statement is that on its plain form,
so two statements of the same plain form get the same verdict, with as many wrappers around a notice as there may be.

* `Stmt.plain`: the plain form, at any depth.
* `Judge.IgnoresCase`: a judge that does not tell small letters from capitals in names.
* `Judge.inspect_plain`: such a judge gives a statement and its plain form the same verdict.
* `inspect_eq_of_plain_eq`: the judges of settings are such judges. -/

namespace Polyfill

open Source Notice

/-! ### Plain forms -/

namespace Source

/-- A name without its place. -/
def Ident.plain (i : Ident) : Ident := ⟨i.text, ⟨0, 0⟩⟩

/-- A name without its place, in small letters. -/
def Ident.folded (i : Ident) : Ident := ⟨i.text.lower, ⟨0, 0⟩⟩

/-- An imported name without its place. -/
def Import.plain (i : Import) : Import := ⟨i.name.plain, i.newName.map Ident.plain⟩

mutual

/-- The plain form of an expression. -/
def Expr.plain : Expr → Expr
  | .name i => .name i.plain
  | .string raw => .string raw
  | .parens e => e.plain
  | .binary l r => .binary l.plain r.plain
  | .call callee args => .call callee.plain (plainArgs args)
  | .staticCall (.name i) method args => .staticCall (.name i.folded) method.plain (plainArgs args)
  | .staticCall (.parens e) method args => .staticCall (.parens e.plain) method.plain (plainArgs args)
  | .staticCall target method args => .staticCall target.plain method.plain (plainArgs args)
  | .closure parts body => .closure (plainExprs parts) body.plain
  | .arrow parts e => .arrow (plainExprs parts) e.plain
  | .anonymousClass parts ms => .anonymousClass (plainExprs parts) (plainMembers ms)
  | .compound shape parts => .compound shape (plainExprs parts)

/-- The plain forms of expressions. -/
def plainExprs : List Expr → List Expr
  | [] => []
  | e :: es => e.plain :: plainExprs es

/-- The plain form of an argument. -/
def Arg.plain : Arg → Arg
  | .mk label e => .mk label e.plain

/-- The plain forms of arguments. -/
def plainArgs : List Arg → List Arg
  | [] => []
  | a :: as => a.plain :: plainArgs as

/-- The plain form of the member of a static call. -/
def Selector.plain : Selector → Selector
  | .named i => .named i.folded
  | .computed parts => .computed (plainExprs parts)

/-- The plain form of a block. -/
def Block.plain : Block → Block
  | .mk _ _ ss => .mk ⟨0, 0⟩ ⟨0, 0⟩ (plainStatements ss)

/-- The plain form of a body. -/
def Body.plain : Body → Body
  | .block b => .block b.plain
  | .list ss => .list (plainStatements ss)
  | .single s => .single s.plain

/-- The plain forms of bodies. -/
def plainBodies : List Body → List Body
  | [] => []
  | b :: bs => b.plain :: plainBodies bs

/-- **The plain form of a statement**: without positions, with small letters in the classes and methods of static calls,
and without parentheses. -/
def Stmt.plain : Stmt → Stmt
  | .expression _ e => .expression ⟨0, 0⟩ e.plain
  | .block b => .block b.plain
  | .control _ heads bodies => .control ⟨0, 0⟩ (plainExprs heads) (plainBodies bodies)
  | .namespaceDecl _ i ss => .namespaceDecl ⟨0, 0⟩ (i.map Ident.plain) (plainStatements ss)
  | .importDecl _ imports => .importDecl ⟨0, 0⟩ (imports.map (List.map Import.plain))
  | .classDecl _ i parts ms => .classDecl ⟨0, 0⟩ i.plain (plainExprs parts) (plainMembers ms)
  | .functionDecl _ parts b => .functionDecl ⟨0, 0⟩ (plainExprs parts) b.plain
  | .other _ parts ss => .other ⟨0, 0⟩ (plainExprs parts) (plainStatements ss)

/-- The plain forms of statements. -/
def plainStatements : List Stmt → List Stmt
  | [] => []
  | s :: ss => s.plain :: plainStatements ss

/-- The plain form of a member of a class. -/
def Member.plain : Member → Member
  | .method i parts none => .method i.plain (plainExprs parts) none
  | .method i parts (some b) => .method i.plain (plainExprs parts) (some b.plain)
  | .other parts => .other (plainExprs parts)

/-- The plain forms of the members of a class. -/
def plainMembers : List Member → List Member
  | [] => []
  | m :: ms => m.plain :: plainMembers ms

end

theorem Expr.plain_staticCall (target : Expr) (method : Selector) (args : List Arg) :
    ∃ target', (Expr.staticCall target method args).plain = .staticCall target' method.plain (plainArgs args) := by
  cases target <;> exact ⟨_, rfl⟩

end Source

/-! ### Small letters -/

theorem Text.lowerByte_lowerByte (b : UInt8) : lowerByte (lowerByte b) = lowerByte b := by
  by_cases h : 0x41 ≤ b ∧ b ≤ 0x5A
  · have hsmall : ¬ (0x41 ≤ b + 0x20 ∧ b + 0x20 ≤ 0x5A) := by
      simp only [UInt8.le_iff_toNat_le, UInt8.toNat_add] at h ⊢
      simp at h ⊢
      omega
    rw [lowerByte, lowerByte, if_pos h, if_neg hsmall]
  · rw [lowerByte, lowerByte, if_neg h, if_neg h]

theorem Text.lower_lower (t : Text) : t.lower.lower = t.lower := by
  rw [lower, lower, List.map_map]
  exact List.map_congr_left fun b _ => lowerByte_lowerByte b

theorem Text.sameIgnoringCase_lower (a b : Text) : sameIgnoringCase a b.lower = sameIgnoringCase a b := by
  rw [sameIgnoringCase, sameIgnoringCase, lower_lower]

theorem Text.lower_sameIgnoringCase (a b : Text) : sameIgnoringCase a.lower b = sameIgnoringCase a b := by
  rw [sameIgnoringCase, sameIgnoringCase, lower_lower]

theorem Name.shortName_lower (t : Text) : shortName t.lower = (shortName t).lower := by
  have hsep : (· != separator) ∘ Text.lowerByte = (· != separator) := by
    funext b
    exact Bool.eq_iff_iff.mpr (by simp only [Function.comp_apply, bne_iff_ne, ne_eq, Text.lowerByte_eq_separator])
  rw [shortName, shortName, Text.lower, Text.lower, ← List.map_reverse, List.takeWhile_map, hsep, List.map_reverse]

/-! ### The verdict on the plain form -/

namespace Notice

theorem literals_plain : ∀ e : Expr, literals e.plain = literals e
  | .string raw => rfl
  | .parens e => by
    rw [Expr.plain, literals]
    exact literals_plain e
  | .binary l r => by rw [Expr.plain, literals, literals, literals_plain l, literals_plain r]
  | .staticCall target method args => by
    obtain ⟨target', hplain⟩ := Expr.plain_staticCall target method args
    rw [hplain, literals, literals] <;> nofun
  | .name _ | .call _ _ | .closure _ _ | .arrow _ _ | .anonymousClass _ _ | .compound _ _ => rfl

theorem literals_plainArgs (args : List Arg) :
    (plainArgs args).flatMap (fun a => literals a.value) = args.flatMap fun a => literals a.value := by
  induction args with
  | nil => rfl
  | cons a args ih =>
    obtain ⟨label, e⟩ := a
    rw [plainArgs, List.flatMap_cons, List.flatMap_cons, ih, Arg.plain, Arg.value, Arg.value, literals_plain]

namespace Judge

/-- **The judge does not tell small letters from capitals** in the names of classes and methods. -/
structure IgnoresCase (j : Judge) : Prop where
  facade : ∀ name, j.isFacade name.lower = j.isFacade name
  notice : ∀ method, j.isNotice method.lower = j.isNotice method
  wrapper : ∀ method, j.isWrapper method.lower = j.isWrapper method

variable {j : Judge}

theorem notice_plainArgs (j : Judge) (args : List Arg) : j.notice (plainArgs args) = j.notice args := by
  rw [Judge.notice, Judge.notice, literals_plainArgs]

-- The induction follows the verdict. Whatever is no call of the facade has no verdict, and its plain form has none
-- either; only a callback is looked into.
mutual

theorem inspectExpr_plain (h : j.IgnoresCase) : ∀ e : Expr, j.inspectExpr e.plain = j.inspectExpr e
  | .parens e => by
    rw [Expr.plain, inspectExpr]
    exact inspectExpr_plain h e
  | .staticCall (.name target) (.named method) args => by
    rw [Expr.plain, Selector.plain, inspectExpr, inspectExpr, Ident.folded, Ident.folded, h.facade, h.notice, h.wrapper,
      notice_plainArgs, inspectCallback_plain h args]
  | .staticCall (.staticCall target method args) method' args' => by
    obtain ⟨target', hplain⟩ := Expr.plain_staticCall target method args
    simp [Expr.plain, hplain, inspectExpr]
  | .staticCall (.name _) (.computed _) _ | .staticCall (.parens _) _ _ | .staticCall (.string _) _ _
  | .staticCall (.binary _ _) _ _ | .staticCall (.call _ _) _ _ | .staticCall (.closure _ _) _ _
  | .staticCall (.arrow _ _) _ _ | .staticCall (.anonymousClass _ _) _ _ | .staticCall (.compound _ _) _ _
  | .name _ | .string _ | .binary _ _ | .call _ _ | .closure _ _ | .arrow _ _ | .anonymousClass _ _
  | .compound _ _ => by simp [Expr.plain, Selector.plain, inspectExpr]

theorem inspectCallback_plain (h : j.IgnoresCase) :
    ∀ args : List Arg, j.inspectCallback (plainArgs args) = j.inspectCallback args
  | [] => rfl
  | .mk label callback :: args => by
    rw [plainArgs, Arg.plain, inspectCallback, inspectCallback, inspectFunction_plain h callback]

theorem inspectFunction_plain (h : j.IgnoresCase) : ∀ e : Expr, j.inspectFunction e.plain = j.inspectFunction e
  | .parens e => by
    rw [Expr.plain, inspectFunction]
    exact inspectFunction_plain h e
  | .closure parts (.mk opening closing ss) => by
    have hempty : (plainStatements ss).isEmpty = ss.isEmpty := by cases ss <;> rfl
    rw [Expr.plain, Block.plain, inspectFunction, inspectFunction, hempty, allRemoved_plain h ss]
  | .arrow parts e => by rw [Expr.plain, inspectFunction, inspectFunction, inspectExpr_plain h e]
  | .staticCall target method args => by
    obtain ⟨target', hplain⟩ := Expr.plain_staticCall target method args
    simp [hplain, inspectFunction]
  | .name _ | .string _ | .binary _ _ | .call _ _ | .anonymousClass _ _ | .compound _ _ => rfl

theorem allRemoved_plain (h : j.IgnoresCase) : ∀ ss : List Stmt, j.allRemoved (plainStatements ss) = j.allRemoved ss
  | [] => rfl
  | s :: ss => by rw [plainStatements, allRemoved, allRemoved, inspect_plain h s, allRemoved_plain h ss]

/-- **A judge that ignores case gives a statement and its plain form the same verdict.** -/
theorem inspect_plain (h : j.IgnoresCase) : ∀ s : Stmt, j.inspect s.plain = j.inspect s
  | .expression span e => by
    rw [Stmt.plain, inspect, inspect]
    exact inspectExpr_plain h e
  | .block _ | .control _ _ _ | .namespaceDecl _ _ _ | .importDecl _ _ | .classDecl _ _ _ _ | .functionDecl _ _ _
  | .other _ _ _ => by simp [Stmt.plain, inspect]

end

theorem ignoresCase_ofSettings (settings : Settings) (aliases : List Text) (tokens : List Token) :
    (Judge.ofSettings settings aliases tokens).IgnoresCase where
  facade name := by
    simp only [Judge.ofSettings, Name.shortName_lower, Text.lower_sameIgnoringCase, Text.sameIgnoringCase_lower]
  notice method := by simp only [Judge.ofSettings, Text.sameIgnoringCase_lower]
  wrapper method := by simp only [Judge.ofSettings, Text.sameIgnoringCase_lower]

end Judge

/-- **Verdicts do not depend on spelling.** Two statements that differ at most in positions, in the case of letters in
the classes and methods of static calls, and in parentheses that are not around the class of a static call, get the same
verdict under all settings, aliases and tokens. -/
theorem inspect_eq_of_plain_eq (settings : Settings) (aliases : List Text) (tokens : List Token) {s s' : Stmt}
    (h : s.plain = s'.plain) :
    (Judge.ofSettings settings aliases tokens).inspect s = (Judge.ofSettings settings aliases tokens).inspect s' := by
  have hcase := Judge.ignoresCase_ofSettings settings aliases tokens
  rw [← Judge.inspect_plain hcase s, h, Judge.inspect_plain hcase s']

/-- Two wrappers around a notice, in plain letters without parentheses, and with other letters and parentheses around
the calls, the callbacks, the body of the arrow function, the literals and the operands: both go. -/
theorem inspect_eq_of_plain_eq_sample :
    let call (target method : String) (args : List Expr) : Expr :=
      .staticCall (.name ⟨.ofString target, ⟨6, 17⟩⟩) (.named ⟨.ofString method, ⟨19, 25⟩⟩) (args.map (.mk none))
    let literal (raw : String) : Expr := .string (.ofString raw)
    let s : Stmt := .expression ⟨6, 120⟩ (call "Deprecation" "withSuppressedNotice"
      [.closure [] (.mk ⟨50, 51⟩ ⟨118, 119⟩ [.expression ⟨52, 117⟩ (call "Deprecation" "withNoReplacement"
        [.arrow [] (call "Deprecation" "notice"
          [literal "'1.0'", .binary (literal "'Will be '") (literal "'moved to B'")])])])])
    let s' : Stmt := .expression ⟨6, 134⟩ (.parens (call "deprecation" "WithSuppressedNotice"
      [.parens (.closure [] (.mk ⟨53, 54⟩ ⟨130, 131⟩ [.expression ⟨55, 129⟩ (call "DEPRECATION" "withnoreplacement"
        [.arrow [] (.parens (.parens (call "DepRecation" "NOTICE"
          [.parens (literal "'1.0'"), .binary (literal "'Will be '") (.parens (literal "'moved to B'"))])))])]))]))
    s.plain = s'.plain ∧ (Judge.ofSettings {} [] []).inspect s = some .remove ∧
      (Judge.ofSettings {} [] []).inspect s' = some .remove := by
  intro call literal s s'
  have hplain : s.plain = s'.plain := rfl
  have hs : (Judge.ofSettings {} [] []).inspect s = some .remove := by decide +kernel
  exact ⟨hplain, hs, (inspect_eq_of_plain_eq {} [] [] hplain).symm.trans hs⟩

end Notice

end Polyfill
