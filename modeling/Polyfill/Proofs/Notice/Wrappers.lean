import Polyfill.Proofs.Notice.Triggers
import Polyfill.Proofs.Text.Search

/-! # What a rename notice consists of

A statement goes if it is a call of the facade that announces the rename: a notice with a trigger in one of its literals,
or a wrapper whose callback runs at least one statement and nothing but such calls. So a wrapper goes or stays as a
whole. The calls that its callback runs form a tree, with a wrapper at each branching; if the outermost wrapper goes, the
tree has leaves, and all of them are notices with a trigger. A single leaf that is anything else keeps it.

* `Operand`: what is looked through in the arguments of a notice.
* `Announces`, `RenameNotice`: the calls and the statements that only announce the rename.
* `inspect_eq_remove_iff`: these are the statements that go.
* `leaves`: the leaves of the tree below a statement.
* `classify_eq_remove_iff_renameNotice`: the verdict, and what it says about the leaves. -/

namespace Polyfill

open Source

theorem Source.Expr.apply_unwrap {α : Type} {f : Expr → α} (hf : ∀ e, f (.parens e) = f e) :
    ∀ e : Expr, f e.unwrap = f e
  | .parens e => by rw [Expr.unwrap, apply_unwrap hf e, hf]
  | .name _ | .string _ | .binary _ _ | .call _ _ | .staticCall _ _ _ | .closure _ _ | .arrow _ _
  | .anonymousClass _ _ | .compound _ _ => rfl

namespace Notice

/-! ### Literals -/

/-- **An operand of an argument**: the argument itself, or what parentheses and operators of two operands lead to. -/
inductive Operand (x : Expr) : Expr → Prop
  | self : Operand x x
  | parens {e : Expr} : Operand x e → Operand x (.parens e)
  | left {l r : Expr} : Operand x l → Operand x (.binary l r)
  | right {l r : Expr} : Operand x r → Operand x (.binary l r)

theorem exists_operand_of_mem_literals {t : Text} :
    ∀ {e : Expr}, t ∈ literals e → ∃ raw, Operand (.string raw) e ∧ literalText raw = t
  | .string raw, h => ⟨raw, .self, (List.mem_singleton.mp h).symm⟩
  | .parens e, h => by
    rw [literals] at h
    obtain ⟨raw, hraw, ht⟩ := exists_operand_of_mem_literals h
    exact ⟨raw, .parens hraw, ht⟩
  | .binary l r, h => by
    rw [literals] at h
    rcases List.mem_append.mp h with h | h
    · obtain ⟨raw, hraw, ht⟩ := exists_operand_of_mem_literals h
      exact ⟨raw, .left hraw, ht⟩
    · obtain ⟨raw, hraw, ht⟩ := exists_operand_of_mem_literals h
      exact ⟨raw, .right hraw, ht⟩

theorem Operand.mem_literals {raw : Text} {e : Expr} (h : Operand (.string raw) e) : literalText raw ∈ literals e := by
  induction h with
  | self => exact List.mem_singleton.mpr rfl
  | parens _ ih => rwa [literals]
  | left _ ih =>
    rw [literals]
    exact List.mem_append_left _ ih
  | right _ ih =>
    rw [literals]
    exact List.mem_append_right _ ih

/-- **The literals of an argument** are the string literals among its operands. -/
theorem mem_literals_iff {t : Text} {e : Expr} :
    t ∈ literals e ↔ ∃ raw, Operand (.string raw) e ∧ literalText raw = t := by
  refine ⟨exists_operand_of_mem_literals, ?_⟩
  rintro ⟨raw, hraw, rfl⟩
  exact hraw.mem_literals

namespace Judge

/-! ### Calls that announce the rename -/

/-- Parentheses aside, the expression calls a method of the facade that is known by its name. -/
def CallsFacade (j : Judge) (e : Expr) (method : Text) (args : List Arg) : Prop :=
  ∃ target ident, e.unwrap = .staticCall (.name target) (.named ident) args ∧ j.isFacade target.text = true ∧
    ident.text = method

/-- The expression is a notice that carries a trigger in one of its literals. -/
def TriggeringNotice (j : Judge) (e : Expr) : Prop :=
  ∃ method args, j.CallsFacade e method args ∧ j.isNotice method = true ∧
    ∃ a ∈ args, ∃ raw, Operand (.string raw) a.value ∧ j.isTrigger (literalText raw) = true

/-- The expression is a wrapper with the given callback. A method that counts as a notice does not count as a wrapper. -/
def Wraps (j : Judge) (e callback : Expr) : Prop :=
  ∃ method label args, j.CallsFacade e method (.mk label callback :: args) ∧ j.isNotice method = false ∧
    j.isWrapper method = true

mutual

/-- **A call that only announces the rename.** -/
inductive Announces (j : Judge) : Expr → Prop
  | notice {e : Expr} : j.TriggeringNotice e → Announces j e
  | closure {e callback : Expr} {parts : List Expr} {body : Block} : j.Wraps e callback →
    callback.unwrap = .closure parts body → body.statements ≠ [] → (∀ s ∈ body.statements, RenameNotice j s) →
      Announces j e
  | arrow {e callback body : Expr} {parts : List Expr} : j.Wraps e callback →
    callback.unwrap = .arrow parts body → Announces j body → Announces j e

/-- **A statement that only announces the rename.** -/
inductive RenameNotice (j : Judge) : Stmt → Prop
  | expression {span : Span} {e : Expr} : Announces j e → RenameNotice j (.expression span e)

end

variable {j : Judge}

theorem notice_eq_remove_iff_operand {args : List Arg} : j.notice args = .remove ↔
    ∃ a ∈ args, ∃ raw, Operand (.string raw) a.value ∧ j.isTrigger (literalText raw) = true := by
  rw [notice_eq_remove_iff]
  constructor
  · rintro ⟨t, ht, htrigger⟩
    obtain ⟨a, ha, ht⟩ := List.mem_flatMap.mp ht
    obtain ⟨raw, hraw, rfl⟩ := mem_literals_iff.mp ht
    exact ⟨a, ha, raw, hraw, htrigger⟩
  · rintro ⟨a, ha, raw, hraw, htrigger⟩
    exact ⟨_, List.mem_flatMap.mpr ⟨a, ha, hraw.mem_literals⟩, htrigger⟩

/-! ### Parentheses -/

theorem inspectExpr_unwrap (j : Judge) (e : Expr) : j.inspectExpr e.unwrap = j.inspectExpr e :=
  Expr.apply_unwrap (fun e => by rw [inspectExpr]) e

theorem inspectFunction_unwrap (j : Judge) (e : Expr) : j.inspectFunction e.unwrap = j.inspectFunction e :=
  Expr.apply_unwrap (fun e => by rw [inspectFunction]) e

theorem Announces.parens {e : Expr} (h : j.Announces e) : j.Announces (.parens e) := by
  cases h with
  | notice h => exact .notice h
  | closure h hc hne hall => exact .closure h hc hne hall
  | arrow h hc hbody => exact .arrow h hc hbody

/-! ### What goes announces the rename -/

-- The induction follows the verdict; parentheses around a callback are passed on to the callback without them.
mutual

theorem announces_of_inspectExpr : ∀ e : Expr, j.inspectExpr e = some .remove → j.Announces e
  | .parens e, h => by
    rw [inspectExpr] at h
    exact (announces_of_inspectExpr e h).parens
  | .staticCall (.name target) (.named method) args, h => by
    rw [inspectExpr] at h
    split at h
    · next hf =>
      have hcall : j.CallsFacade (.staticCall (.name target) (.named method) args) method.text args :=
        ⟨target, method, rfl, hf, rfl⟩
      split at h
      · next hn => exact .notice ⟨_, _, hcall, hn, notice_eq_remove_iff_operand.mp (Option.some.inj h)⟩
      · next hn =>
        split at h
        · next hw => exact announces_of_inspectCallback args (Option.some.inj h) fun label callback more hargs =>
            ⟨method.text, label, more, hargs ▸ hcall, by simpa using hn, hw⟩
        · cases h
    · cases h

theorem announces_of_inspectCallback {e : Expr} : ∀ args : List Arg, j.inspectCallback args = .remove →
    (∀ label callback more, args = .mk label callback :: more → j.Wraps e callback) → j.Announces e
  | .mk label callback :: more, h, hwraps => by
    rw [inspectCallback] at h
    exact announces_of_inspectFunction callback h callback (hwraps label callback more rfl) rfl

theorem announces_of_inspectFunction {e : Expr} : ∀ c : Expr, j.inspectFunction c = .remove →
    ∀ callback : Expr, j.Wraps e callback → callback.unwrap = c.unwrap → j.Announces e
  | .parens c, h, callback, hwraps, hc => by
    rw [inspectFunction] at h
    exact announces_of_inspectFunction c h callback hwraps hc
  | .closure parts (.mk opening closing ss), h, callback, hwraps, hc => by
    rw [inspectFunction] at h
    split at h
    · next hss =>
      obtain ⟨hne, hall⟩ := Bool.and_eq_true_iff.mp hss
      exact .closure hwraps hc (by simpa [Block.statements] using hne) (renameNotice_of_allRemoved ss hall)
    · cases h
  | .arrow parts body, h, callback, hwraps, hc => by
    rw [inspectFunction] at h
    have hbody : j.inspectExpr body = some .remove := by
      cases hv : j.inspectExpr body with
      | none => simp [hv] at h
      | some v => simpa [hv] using h
    exact .arrow hwraps hc (announces_of_inspectExpr body hbody)

theorem renameNotice_of_allRemoved : ∀ ss : List Stmt, j.allRemoved ss = true → ∀ s ∈ ss, j.RenameNotice s
  | [], _ => by simp
  | s :: ss, h => by
    rw [allRemoved, Bool.and_eq_true, beq_iff_eq] at h
    exact List.forall_mem_cons.mpr ⟨renameNotice_of_inspect s h.1, renameNotice_of_allRemoved ss h.2⟩

theorem renameNotice_of_inspect : ∀ s : Stmt, j.inspect s = some .remove → j.RenameNotice s
  | .expression span e, h => by
    rw [inspect] at h
    exact .expression (announces_of_inspectExpr e h)

end

/-! ### What announces the rename goes -/

theorem inspectExpr_of_callsFacade {e : Expr} {method : Text} {args : List Arg} (h : j.CallsFacade e method args) :
    j.inspectExpr e =
      if j.isNotice method then some (j.notice args)
      else if j.isWrapper method then some (j.inspectCallback args)
      else none := by
  obtain ⟨target, ident, he, hf, rfl⟩ := h
  rw [← inspectExpr_unwrap, he, inspectExpr, if_pos hf]

theorem TriggeringNotice.inspectExpr {e : Expr} (h : j.TriggeringNotice e) : j.inspectExpr e = some .remove := by
  obtain ⟨method, args, hcall, hn, htrigger⟩ := h
  rw [inspectExpr_of_callsFacade hcall, if_pos hn, notice_eq_remove_iff_operand.mpr htrigger]

theorem Wraps.inspectExpr {e callback : Expr} (h : j.Wraps e callback) :
    j.inspectExpr e = some (j.inspectFunction callback) := by
  obtain ⟨method, label, args, hcall, hn, hw⟩ := h
  rw [inspectExpr_of_callsFacade hcall, hn, if_neg Bool.false_ne_true, if_pos hw, inspectCallback]

theorem allRemoved_iff {ss : List Stmt} : j.allRemoved ss = true ↔ ∀ s ∈ ss, j.inspect s = some .remove := by
  induction ss with
  | nil => simp [allRemoved]
  | cons s ss ih => rw [allRemoved, Bool.and_eq_true, beq_iff_eq, ih, List.forall_mem_cons]

mutual

theorem Announces.inspectExpr {e : Expr} : j.Announces e → j.inspectExpr e = some .remove
  | .notice h => h.inspectExpr
  | @Announces.closure _ _ _ parts (.mk opening closing ss) hwraps hc hne hall => by
    have hss : j.allRemoved ss = true := allRemoved_iff.mpr fun s hs => (hall s hs).inspect
    rw [hwraps.inspectExpr, ← inspectFunction_unwrap, hc, inspectFunction, if_pos]
    exact Bool.and_eq_true_iff.mpr ⟨by simpa [Block.statements] using hne, hss⟩
  | .arrow hwraps hc hbody => by
    rw [hwraps.inspectExpr, ← inspectFunction_unwrap, hc, inspectFunction, hbody.inspectExpr, Option.getD_some]

theorem RenameNotice.inspect {s : Stmt} : j.RenameNotice s → j.inspect s = some .remove
  | .expression h => by
    rw [Judge.inspect]
    exact h.inspectExpr

end

/-- **The statements that go are those that only announce the rename.** -/
theorem inspect_eq_remove_iff {s : Stmt} : j.inspect s = some .remove ↔ j.RenameNotice s :=
  ⟨renameNotice_of_inspect s, RenameNotice.inspect⟩

end Judge

/-! ### The leaves of a wrapper -/

/-- What a callback runs in the end: that which runs no callback itself. -/
inductive Leaf where
  /-- An expression that stands as a statement, or the body of an arrow function. -/
  | expression (e : Expr)
  /-- Any other statement. -/
  | statement (s : Stmt)

/-- The leaf is a statement of another form. -/
def Leaf.isStatement : Leaf → Bool
  | .expression _ => false
  | .statement _ => true

namespace Judge

mutual

/-- The leaves below an expression: what the callback of a wrapper runs, and the expression itself if that is nothing. -/
def leavesExpr (j : Judge) : Expr → List Leaf
  | .parens e => leavesExpr j e
  | .staticCall (.name target) (.named method) args =>
    let below :=
      if j.isFacade target.text && !j.isNotice method.text && j.isWrapper method.text then leavesCallback j args else []
    if below.isEmpty then [.expression (.staticCall (.name target) (.named method) args)] else below
  | e => [.expression e]

/-- The leaves below the callback among the arguments of a wrapper. -/
def leavesCallback (j : Judge) : List Arg → List Leaf
  | [] => []
  | .mk _ callback :: _ => leavesFunction j callback

/-- The leaves below a callback, none if it is no function. -/
def leavesFunction (j : Judge) : Expr → List Leaf
  | .parens e => leavesFunction j e
  | .closure _ (.mk _ _ ss) => leavesIn j ss
  | .arrow _ e => leavesExpr j e
  | _ => []

/-- The leaves below statements. -/
def leavesIn (j : Judge) : List Stmt → List Leaf
  | [] => []
  | s :: ss => leaves j s ++ leavesIn j ss

/-- **The leaves of the tree of callbacks below a statement.** -/
def leaves (j : Judge) : Stmt → List Leaf
  | .expression _ e => leavesExpr j e
  | s => [.statement s]

end

/-- The leaf is a notice that carries a trigger. -/
def IsTriggeringNotice (j : Judge) : Leaf → Prop
  | .expression e => j.TriggeringNotice e
  | .statement _ => False

variable {j : Judge}

theorem not_isTriggeringNotice_of_isStatement {x : Leaf} (h : x.isStatement = true) : ¬ j.IsTriggeringNotice x := by
  cases x with
  | expression e => cases h
  | statement s => exact id

theorem leavesIn_eq_flatMap (ss : List Stmt) : j.leavesIn ss = ss.flatMap j.leaves := by
  induction ss with
  | nil => rfl
  | cons s ss ih => rw [leavesIn, ih, List.flatMap_cons]

theorem leavesExpr_staticCall (target method : Ident) (args : List Arg) :
    j.leavesExpr (.staticCall (.name target) (.named method) args) =
        [.expression (.staticCall (.name target) (.named method) args)] ∨
      (j.isFacade target.text = true ∧ j.isNotice method.text = false ∧ j.isWrapper method.text = true) ∧
        j.leavesCallback args ≠ [] ∧
        j.leavesExpr (.staticCall (.name target) (.named method) args) = j.leavesCallback args := by
  rw [leavesExpr]
  by_cases hwrapper : j.isFacade target.text && !j.isNotice method.text && j.isWrapper method.text
  · simp only [if_pos hwrapper]
    by_cases hnone : j.leavesCallback args = []
    · exact .inl (if_pos (List.isEmpty_iff.mpr hnone))
    · refine .inr ⟨?_, hnone, if_neg (mt List.isEmpty_iff.mp hnone)⟩
      simpa [and_assoc] using hwrapper
  · simp only [if_neg hwrapper]
    exact .inl rfl

theorem leavesExpr_ne_nil : ∀ e : Expr, j.leavesExpr e ≠ []
  | .parens e => by
    rw [leavesExpr]
    exact leavesExpr_ne_nil e
  | .staticCall (.name target) (.named method) args => by
    rcases leavesExpr_staticCall (j := j) target method args with h | ⟨-, hne, h⟩
    · rw [h]
      exact List.cons_ne_nil _ _
    · rwa [h]
  | .staticCall (.name _) (.computed _) _ | .staticCall (.string _) _ _ | .staticCall (.parens _) _ _
  | .staticCall (.binary _ _) _ _ | .staticCall (.call _ _) _ _ | .staticCall (.staticCall _ _ _) _ _
  | .staticCall (.closure _ _) _ _ | .staticCall (.arrow _ _) _ _ | .staticCall (.anonymousClass _ _) _ _
  | .staticCall (.compound _ _) _ _ | .name _ | .string _ | .binary _ _ | .call _ _ | .closure _ _ | .arrow _ _
  | .anonymousClass _ _ | .compound _ _ => by simp [leavesExpr]

theorem leaves_ne_nil (s : Stmt) : j.leaves s ≠ [] := by
  cases s with
  | expression span e => exact leavesExpr_ne_nil e
  | _ => simp [leaves]

theorem leavesIn_ne_nil {ss : List Stmt} (h : ss ≠ []) : j.leavesIn ss ≠ [] := by
  rw [leavesIn_eq_flatMap]
  obtain ⟨s, hs⟩ := List.exists_mem_of_ne_nil ss h
  obtain ⟨x, hx⟩ := List.exists_mem_of_ne_nil _ (leaves_ne_nil (j := j) s)
  exact List.ne_nil_of_mem (List.mem_flatMap.mpr ⟨s, hs, hx⟩)

theorem leavesExpr_unwrap (j : Judge) (e : Expr) : j.leavesExpr e.unwrap = j.leavesExpr e :=
  Expr.apply_unwrap (fun e => by rw [leavesExpr]) e

theorem leavesFunction_unwrap (j : Judge) (e : Expr) : j.leavesFunction e.unwrap = j.leavesFunction e :=
  Expr.apply_unwrap (fun e => by rw [leavesFunction]) e

theorem triggeringNotice_unwrap_iff {e : Expr} : j.TriggeringNotice e.unwrap ↔ j.TriggeringNotice e := by
  have hidem : e.unwrap.unwrap = e.unwrap := Expr.apply_unwrap (fun e => by rw [Expr.unwrap]) e
  rw [TriggeringNotice, TriggeringNotice]
  simp only [CallsFacade, hidem]

theorem TriggeringNotice.leavesExpr {e : Expr} (h : j.TriggeringNotice e) :
    j.leavesExpr e = [.expression e.unwrap] := by
  obtain ⟨method, args, ⟨target, ident, he, hf, rfl⟩, hn, -⟩ := h
  rw [← leavesExpr_unwrap, he, Judge.leavesExpr, hn]
  simp

theorem Wraps.leavesExpr {e callback : Expr} (h : j.Wraps e callback) (hne : j.leavesFunction callback ≠ []) :
    j.leavesExpr e = j.leavesFunction callback := by
  obtain ⟨method, label, args, ⟨target, ident, he, hf, rfl⟩, hn, hw⟩ := h
  rw [← leavesExpr_unwrap, he, Judge.leavesExpr, hf, hn, hw]
  simp [leavesCallback, hne]

/-! ### All leaves of what goes are notices -/

mutual

theorem Announces.isTriggeringNotice {e : Expr} : j.Announces e → ∀ x ∈ j.leavesExpr e, j.IsTriggeringNotice x
  | .notice h, x, hx => by
    rw [h.leavesExpr, List.mem_singleton] at hx
    rw [hx]
    exact triggeringNotice_unwrap_iff.mpr h
  | @Announces.closure _ _ callback parts (.mk opening closing ss) hwraps hc hne hall, x, hx => by
    have hleaves : j.leavesFunction callback = j.leavesIn ss := by
      rw [← leavesFunction_unwrap, hc, leavesFunction]
    rw [hwraps.leavesExpr (hleaves ▸ leavesIn_ne_nil hne), hleaves, leavesIn_eq_flatMap] at hx
    obtain ⟨s, hs, hx⟩ := List.mem_flatMap.mp hx
    exact (hall s hs).isTriggeringNotice x hx
  | @Announces.arrow _ _ callback body parts hwraps hc hbody, x, hx => by
    have hleaves : j.leavesFunction callback = j.leavesExpr body := by
      rw [← leavesFunction_unwrap, hc, leavesFunction]
    rw [hwraps.leavesExpr (hleaves ▸ leavesExpr_ne_nil body), hleaves] at hx
    exact hbody.isTriggeringNotice x hx

theorem RenameNotice.isTriggeringNotice {s : Stmt} : j.RenameNotice s → ∀ x ∈ j.leaves s, j.IsTriggeringNotice x
  | .expression h, x, hx => h.isTriggeringNotice x hx

end

/-! ### If all leaves are notices, all goes -/

mutual

theorem announces_of_leavesExpr : ∀ e : Expr, (∀ x ∈ j.leavesExpr e, j.IsTriggeringNotice x) → j.Announces e
  | .parens e, h => by
    rw [leavesExpr] at h
    exact (announces_of_leavesExpr e h).parens
  | .staticCall (.name target) (.named method) args, h => by
    rcases leavesExpr_staticCall (j := j) target method args with hself | ⟨⟨hf, hn, hw⟩, hne, hbelow⟩
    · rw [hself] at h
      exact .notice (h _ (List.mem_singleton_self _))
    · rw [hbelow] at h
      exact announces_of_leavesCallback args hne h fun label callback more hargs =>
        ⟨method.text, label, more, ⟨target, method, by rw [hargs]; rfl, hf, rfl⟩, hn, hw⟩
  | .staticCall (.name _) (.computed _) _, h | .staticCall (.string _) _ _, h | .staticCall (.parens _) _ _, h
  | .staticCall (.binary _ _) _ _, h | .staticCall (.call _ _) _ _, h | .staticCall (.staticCall _ _ _) _ _, h
  | .staticCall (.closure _ _) _ _, h | .staticCall (.arrow _ _) _ _, h
  | .staticCall (.anonymousClass _ _) _ _, h | .staticCall (.compound _ _) _ _, h
  | .name _, h | .string _, h | .binary _ _, h | .call _ _, h | .closure _ _, h | .arrow _ _, h
  | .anonymousClass _ _, h | .compound _ _, h => .notice (h _ (List.mem_singleton_self _))

theorem announces_of_leavesCallback {e : Expr} : ∀ args : List Arg, j.leavesCallback args ≠ [] →
    (∀ x ∈ j.leavesCallback args, j.IsTriggeringNotice x) →
    (∀ label callback more, args = .mk label callback :: more → j.Wraps e callback) → j.Announces e
  | [], hne, _, _ => absurd rfl hne
  | .mk label callback :: more, hne, h, hwraps => by
    rw [leavesCallback] at hne h
    exact announces_of_leavesFunction callback hne h callback (hwraps label callback more rfl) rfl

theorem announces_of_leavesFunction {e : Expr} : ∀ c : Expr, j.leavesFunction c ≠ [] →
    (∀ x ∈ j.leavesFunction c, j.IsTriggeringNotice x) →
    ∀ callback : Expr, j.Wraps e callback → callback.unwrap = c.unwrap → j.Announces e
  | .parens c, hne, h, callback, hwraps, hc => by
    rw [leavesFunction] at hne h
    exact announces_of_leavesFunction c hne h callback hwraps hc
  | .closure parts (.mk opening closing ss), hne, h, callback, hwraps, hc => by
    rw [leavesFunction] at hne h
    have hss : ss ≠ [] := by
      rintro rfl
      exact hne rfl
    exact .closure hwraps hc hss (renameNotice_of_leavesIn ss h)
  | .arrow parts body, _, h, callback, hwraps, hc => by
    rw [leavesFunction] at h
    exact .arrow hwraps hc (announces_of_leavesExpr body h)
  | .name _, hne, _, _, _, _ | .string _, hne, _, _, _, _ | .binary _ _, hne, _, _, _, _ | .call _ _, hne, _, _, _, _
  | .staticCall _ _ _, hne, _, _, _, _ | .anonymousClass _ _, hne, _, _, _, _
  | .compound _ _, hne, _, _, _, _ => absurd rfl hne

theorem renameNotice_of_leavesIn : ∀ ss : List Stmt, (∀ x ∈ j.leavesIn ss, j.IsTriggeringNotice x) →
    ∀ s ∈ ss, j.RenameNotice s
  | [], _ => by simp
  | s :: ss, h => by
    rw [leavesIn, List.forall_mem_append] at h
    exact List.forall_mem_cons.mpr ⟨renameNotice_of_leaves s h.1, renameNotice_of_leavesIn ss h.2⟩

theorem renameNotice_of_leaves : ∀ s : Stmt, (∀ x ∈ j.leaves s, j.IsTriggeringNotice x) → j.RenameNotice s
  | .expression _ e, h => .expression (announces_of_leavesExpr e h)
  | .block _, h | .control _ _ _, h | .namespaceDecl _ _ _, h | .importDecl _ _, h | .classDecl _ _ _ _, h
  | .functionDecl _ _ _, h | .other _ _ _, h => (h _ (List.mem_singleton_self _)).elim

end

/-- **A statement only announces the rename if and only if all leaves below it are notices that carry a trigger.** -/
theorem renameNotice_iff_leaves {s : Stmt} : j.RenameNotice s ↔ ∀ x ∈ j.leaves s, j.IsTriggeringNotice x :=
  ⟨RenameNotice.isTriggeringNotice, renameNotice_of_leaves s⟩

end Judge

/-! ### Triggers -/

theorem containsPhrase_iff {phrases : List Text} {text : Text} :
    containsPhrase phrases text = true ↔ ∃ p ∈ phrases, p ≠ [] ∧ p <:+: text := by
  simp only [containsPhrase, List.any_eq_true, Bool.and_eq_true, Bool.not_eq_true', List.isEmpty_eq_false_iff,
    Text.includes_iff]

theorem isTrigger_ofSettings_iff (s : Settings) (aliases : List Text) (tokens : List Token) (text : Text) :
    (Judge.ofSettings s aliases tokens).isTrigger text = true ↔
      (∃ p ∈ s.phrases, p ≠ [] ∧ p <:+: text) ∨ ∃ k ∈ s.activeTokens tokens, k.standsIn text = true := by
  rw [isTrigger_ofSettings, Bool.or_eq_true, containsPhrase_iff, mentionedIn, List.any_eq_true]

/-- **The verdict on a statement.** A statement goes if and only if it only announces the rename: it is a notice with a
literal that contains a phrase or in which a token that counts stands, or a wrapper around a function that runs at least
one statement and only such statements, or one such call. The tree of callbacks below a statement has leaves; the
statement goes if and only if all of them are notices that carry a trigger, and stays if one of them is not. -/
theorem classify_eq_remove_iff_renameNotice (settings : Settings) (aliases : List Text) (tokens : List Token)
    (s : Stmt) :
    let j := Judge.ofSettings settings aliases tokens
    (j.classify s = .remove ↔ j.RenameNotice s) ∧
    (∀ text, j.isTrigger text = true ↔
      (∃ p ∈ settings.phrases, p ≠ [] ∧ p <:+: text) ∨ ∃ k ∈ settings.activeTokens tokens, k.standsIn text = true) ∧
    j.leaves s ≠ [] ∧
    (j.classify s = .remove ↔ ∀ x ∈ j.leaves s, j.IsTriggeringNotice x) ∧
    ((∃ x ∈ j.leaves s, ¬ j.IsTriggeringNotice x) → j.classify s = .keep) := by
  intro j
  have hverdict : j.classify s = .remove ↔ j.RenameNotice s :=
    Judge.classify_eq_remove_iff.trans Judge.inspect_eq_remove_iff
  refine ⟨hverdict, isTrigger_ofSettings_iff settings aliases tokens, Judge.leaves_ne_nil s,
    hverdict.trans Judge.renameNotice_iff_leaves, ?_⟩
  rintro ⟨x, hx, hnone⟩
  cases hv : j.classify s with
  | keep => rfl
  | remove => exact absurd (Judge.renameNotice_iff_leaves.mp (hverdict.mp hv) x hx) hnone

/-- Two wrappers, each with a wrapper inside: the first runs two notices and goes, the second also runs a statement that
is no notice and stays. -/
theorem classify_eq_remove_iff_renameNotice_sample :
    let source := Text.ofString ("<?php\nclass A \x7b function f() \x7b " ++
      "Deprecation::withSuppressedNotice(function () \x7b Deprecation::notice('renamed to B'); " ++
      "Deprecation::withNoReplacement(fn () => (Deprecation::notice('1.0', 'Will be ' . ('moved to C')))); \x7d);\n" ++
      "Deprecation::withSuppressedNotice(function () \x7b Deprecation::notice('renamed to B'); " ++
      "Deprecation::withNoReplacement(function () \x7b Deprecation::notice('renamed to C'); return; \x7d); \x7d);" ++
      " \x7d \x7d")
    let j := Judge.ofSettings {} [] []
    ∃ p, parse? source = some p ∧ ∃ l ∈ visitedLists j.removes p,
      (∃ s ∈ l.statements, j.classify s = .remove ∧ (j.leaves s).length = 2 ∧
        ∀ x ∈ j.leaves s, j.IsTriggeringNotice x) ∧
      ∃ s ∈ l.statements, (j.leaves s).length = 3 ∧ (∃ x ∈ j.leaves s, ¬ j.IsTriggeringNotice x) ∧
        j.classify s = .keep := by
  intro source j
  have h : ((parse? source).any fun p => (visitedLists j.removes p).any fun l =>
      l.statements.any (fun s => j.classify s == .remove && (j.leaves s).length == 2) &&
        l.statements.any fun s => (j.leaves s).length == 3 && (j.leaves s).any Leaf.isStatement) = true := by
    decide +kernel
  obtain ⟨p, hp, h⟩ := (Option.any_eq_true _ _).mp h
  obtain ⟨l, hl, h⟩ := List.any_eq_true.mp h
  simp only [Bool.and_eq_true, List.any_eq_true, beq_iff_eq] at h
  obtain ⟨⟨s, hs, hremove, htwo⟩, s', hs', hthree, x, hx, hstatement⟩ := h
  obtain ⟨-, -, -, hleaves, -⟩ := classify_eq_remove_iff_renameNotice {} [] [] s
  obtain ⟨-, -, -, -, hkeep⟩ := classify_eq_remove_iff_renameNotice {} [] [] s'
  have hother : ∃ x ∈ j.leaves s', ¬ j.IsTriggeringNotice x :=
    ⟨x, hx, Judge.not_isTriggeringNotice_of_isStatement hstatement⟩
  exact ⟨p, hp, l, hl, ⟨s, hs, hremove, htwo, hleaves.mp hremove⟩, s', hs', hthree, hother, hkeep hother⟩

end Notice

end Polyfill
