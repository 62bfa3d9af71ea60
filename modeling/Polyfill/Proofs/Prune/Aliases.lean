import Polyfill.Proofs.Name
import Polyfill.Proofs.Prune.Survey
import Polyfill.Source.Parse
import Polyfill.Transform

/-! # The scope of aliases

An import holds in the namespace it stands in, or outside of all namespaces if it stands there. The aliases of the
facade are collected from a whole file, though, and count everywhere in it: a name is an alias if some region of the
file imports the facade under it. In a file where no other region does so, that is the region at hand.

* `regions`: the namespaces of a file, and what stands outside of them.
* `bindsFacade`: a region imports the facade under a name.
* `isFacade_iff_of_alias`: the names that count as aliases.
* `alias_in_scope`: when an alias is in scope where it counts.
* `alias_leaks`: an alias can count where it is not in scope. -/

namespace Polyfill

open Source Notice Mapping Prune

/-! ### Regions -/

namespace Source

mutual

/-- The statements of a namespace and of those in it, each as a list of its own. -/
def Stmt.namespaces : Stmt → List (List Stmt)
  | .namespaceDecl _ _ ss => ss :: namespacesIn ss
  | _ => []

/-- The statements of the namespaces in a list, each as a list of its own. -/
def namespacesIn : List Stmt → List (List Stmt)
  | [] => []
  | s :: ss => s.namespaces ++ namespacesIn ss

end

/-- The regions of a file in which imports hold: what stands outside of all namespaces, and each namespace. -/
def regions (p : Program) : List (List Stmt) := p :: namespacesIn p

mutual

theorem Stmt.mem_declared {x : Stmt} : ∀ {s : Stmt}, x ∈ s.declared ↔ x = s ∨ ∃ r ∈ s.namespaces, x ∈ r
  | .namespaceDecl span ident ss => by
    rw [Stmt.declared, Stmt.namespaces, List.mem_cons, mem_declared_or]
    simp only [List.mem_cons, exists_eq_or_imp]
  | .expression .. | .block .. | .control .. | .importDecl .. | .classDecl .. | .functionDecl .. | .other .. => by
    simp [Stmt.declared, Stmt.namespaces]

theorem mem_declared_or {x : Stmt} : ∀ {ss : List Stmt},
    x ∈ declared ss ↔ x ∈ ss ∨ ∃ r ∈ namespacesIn ss, x ∈ r
  | [] => by simp [declared, namespacesIn]
  | s :: ss => by
    rw [declared, namespacesIn, List.mem_append, Stmt.mem_declared, mem_declared_or, List.mem_cons]
    simp only [List.mem_append, or_and_right, exists_or]
    exact or_or_or_comm

end

theorem mem_declared_iff {x : Stmt} {p : Program} : x ∈ declared p ↔ ∃ r ∈ regions p, x ∈ r := by
  rw [mem_declared_or, regions]
  simp only [List.mem_cons, exists_eq_or_imp]

end Source

/-! ### Names up to case -/

namespace Text

theorem sameIgnoringCase_iff {a b : Text} : sameIgnoringCase a b = true ↔ a.lower = b.lower := by
  rw [sameIgnoringCase, beq_iff_eq]

theorem lowerByte_eq_separator {b : UInt8} : lowerByte b = Name.separator ↔ b = Name.separator := by
  rw [lowerByte, Name.separator]
  split
  · next h =>
    have h₁ := UInt8.le_iff_toNat_le.mp h.1
    have h₂ := UInt8.le_iff_toNat_le.mp h.2
    constructor
    · intro hb
      have := congrArg UInt8.toNat hb
      simp at this h₁ h₂
      omega
    · rintro rfl
      simp at h₂
  · rfl

theorem separator_mem_lower {t : Text} : Name.separator ∈ t.lower ↔ Name.separator ∈ t := by
  simp only [lower, List.mem_map, lowerByte_eq_separator, exists_eq_right]

end Text

/-! ### Aliases -/

/-- The region imports the facade and gives it the name `name`. -/
def bindsFacade (facade : Text) (region : List Stmt) (name : Text) : Bool :=
  region.any fun
    | .importDecl _ (some imports) => imports.any fun i =>
      Text.sameIgnoringCase (Name.shortName i.name.text) facade &&
        i.newName.any fun ident => Text.sameIgnoringCase ident.text name
    | _ => false

theorem bindsFacade_iff {facade name : Text} {r : List Stmt} : bindsFacade facade r name = true ↔
    ∃ span imports, .importDecl span (some imports) ∈ r ∧ ∃ i ∈ imports,
      Text.sameIgnoringCase (Name.shortName i.name.text) facade = true ∧
        ∃ ident, i.newName = some ident ∧ Text.sameIgnoringCase ident.text name = true := by
  rw [bindsFacade, List.any_eq_true]
  constructor
  · rintro ⟨s, hs, h⟩
    split at h
    · next span imports =>
      obtain ⟨i, hi, h⟩ := List.any_eq_true.mp h
      rw [Bool.and_eq_true, Option.any_eq_true] at h
      exact ⟨span, imports, hs, i, hi, h⟩
    · cases h
  · rintro ⟨span, imports, hs, i, hi, h⟩
    refine ⟨_, hs, List.any_eq_true.mpr ⟨i, hi, ?_⟩⟩
    rw [Bool.and_eq_true, Option.any_eq_true]
    exact h

/-- An import of the facade in a statement, taken apart. -/
theorem mem_facadeImportsIn {facade : Text} {s : Stmt} {d : FacadeImport} :
    d ∈ facadeImportsIn facade s ↔ ∃ span imports, s = .importDecl span (some imports) ∧ ∃ i ∈ imports,
      Text.sameIgnoringCase (Name.shortName i.name.text) facade = true ∧
        d = ⟨span, importedName i, imports.length == 1⟩ := by
  unfold facadeImportsIn
  split
  · next span imports =>
    simp only [List.mem_map, List.mem_filter]
    constructor
    · rintro ⟨i, ⟨hi, hf⟩, rfl⟩
      exact ⟨span, imports, rfl, i, hi, hf, rfl⟩
    · rintro ⟨_, _, heq, i, hi, hf, rfl⟩
      cases heq
      exact ⟨i, ⟨hi, hf⟩, rfl⟩
  · next hne =>
    constructor
    · intro h
      cases h
    · rintro ⟨span, imports, rfl, -⟩
      exact absurd rfl (hne span imports)

/-- **The aliases of a file**: a name other than that of the facade counts as an alias if and only if some region
imports the facade under it. -/
theorem isFacade_iff_of_alias {settings : Settings} {tokens : List Notice.Token} {p : Program} {name : Text}
    (h : Text.sameIgnoringCase (Name.shortName name) settings.facade = false) :
    (Judge.ofSettings settings (facadeAliases settings.facade p) tokens).isFacade name = true ↔
      ∃ r ∈ regions p, bindsFacade settings.facade r name = true := by
  simp only [Judge.ofSettings, h, Bool.false_or, List.any_eq_true, facadeAliases, List.mem_filter, List.mem_map,
    facadeImports, List.mem_flatMap, bindsFacade_iff]
  constructor
  · rintro ⟨_, ⟨⟨d, ⟨s, hs, hd⟩, rfl⟩, hne⟩, hname⟩
    obtain ⟨span, imports, rfl, i, hi, hf, rfl⟩ := mem_facadeImportsIn.mp hd
    obtain ⟨r, hr, hs⟩ := mem_declared_iff.mp hs
    refine ⟨r, hr, span, imports, hs, i, hi, hf, ?_⟩
    -- An import without a new name binds the facade's own.
    cases hnew : i.newName with
    | none => simp [importedName, hnew, hf] at hne
    | some ident => exact ⟨ident, rfl, by simpa [importedName, hnew] using hname⟩
  · rintro ⟨r, hr, span, imports, hs, i, hi, hf, ident, hnew, hname⟩
    have himported : importedName i = ident.text := by rw [importedName, hnew]
    refine ⟨ident.text, ⟨⟨_, ⟨_, mem_declared_iff.mpr ⟨r, hr, hs⟩, mem_facadeImportsIn.mpr
      ⟨span, imports, rfl, i, hi, hf, rfl⟩⟩, himported⟩, ?_⟩, hname⟩
    -- The facade has no separators, so a name equal to it is its own last segment.
    rw [Bool.not_eq_true']
    by_contra hsame
    rw [Bool.not_eq_false, Text.sameIgnoringCase_iff] at hsame
    rw [Text.sameIgnoringCase_iff] at hf hname
    have hsep : Name.separator ∉ name := by
      rw [← Text.separator_mem_lower, ← hname, hsame, ← hf, Text.separator_mem_lower]
      exact Name.separator_not_mem_shortName _
    rw [Name.shortName_of_not_mem hsep, ← Bool.not_eq_true, Text.sameIgnoringCase_iff] at h
    exact h (hname.symm.trans hsame)

theorem exists_call_of_inspectExpr {j : Judge} : ∀ {e : Expr}, (j.inspectExpr e).isSome = true →
    ∃ target method args, e.unwrap = .staticCall (.name target) method args ∧ j.isFacade target.text = true
  | .parens e, h => by
    rw [Judge.inspectExpr] at h
    exact exists_call_of_inspectExpr (e := e) h
  | .staticCall (.name target) (.named method) args, h => by
    rw [Judge.inspectExpr] at h
    split at h
    · next hf => exact ⟨target, .named method, args, rfl, hf⟩
    · cases h

theorem isFacade_of_inspectExpr {j : Judge} {target : Ident} {method : Selector} {args : List Arg}
    (h : (j.inspectExpr (.staticCall (.name target) method args)).isSome = true) :
    j.isFacade target.text = true := by
  obtain ⟨_, _, _, heq, hf⟩ := exists_call_of_inspectExpr h
  cases heq
  exact hf

/-- **When an alias is in scope.** A call of a class that has not the name of the facade counts only if some region of
the file imports the facade under that name; if no region but the one at hand does so, this region does. -/
theorem alias_in_scope (c : Config) (entry : Entry) {p : Program} {r : List Stmt} {target : Ident}
    {method : Selector} {args : List Arg}
    (hname : Text.sameIgnoringCase (Name.shortName target.text) c.settings.facade = false)
    (hcall : ((c.judge entry p).inspectExpr (.staticCall (.name target) method args)).isSome = true) :
    (∃ r' ∈ regions p, bindsFacade c.settings.facade r' target.text = true) ∧
      ((∀ r' ∈ regions p, r' ≠ r → bindsFacade c.settings.facade r' target.text = false) →
        bindsFacade c.settings.facade r target.text = true) := by
  have hbound := (isFacade_iff_of_alias hname).mp (isFacade_of_inspectExpr hcall)
  refine ⟨hbound, fun hothers => ?_⟩
  obtain ⟨r', hr', hb⟩ := hbound
  by_cases heq : r' = r
  · exact heq ▸ hb
  · rw [hothers r' hr' heq] at hb
    cases hb

/-- A file with one namespace, in which an alias counts. -/
theorem alias_in_scope_sample :
    let source := Text.ofString ("<?php namespace N;\nuse Vendor\\Deprecation as Dep;\nclass A \x7b function f() \x7b " ++
      "Dep::notice('renamed to B'); \x7d \x7d")
    let c : Config := {}
    let entry : Entry := ⟨.ofString "A", [], .ofString "B", [], []⟩
    let target : Ident := ⟨.ofString "Dep", ⟨0, 0⟩⟩
    let call : Expr := .staticCall (.name target) (.named ⟨.ofString "notice", ⟨0, 0⟩⟩) []
    Text.sameIgnoringCase (Name.shortName target.text) c.settings.facade = false ∧
      ∃ p, parse? source = some p ∧ ((c.judge entry p).inspectExpr call).isSome = true ∧
        ∃ r ∈ regions p, bindsFacade c.settings.facade r target.text = true := by
  intro source c entry target call
  have hname : Text.sameIgnoringCase (Name.shortName target.text) c.settings.facade = false := by decide +kernel
  have h : ((parse? source).any fun p => ((c.judge entry p).inspectExpr call).isSome) = true := by decide +kernel
  obtain ⟨p, hp, h⟩ := (Option.any_eq_true _ _).mp h
  exact ⟨hname, p, hp, h, (alias_in_scope (r := []) c entry hname h).1⟩

/-- The judge for whom the calls that count are those of classes that are not the facade in the region `r`. -/
def strangerJudge (facade : Text) (r : List Stmt) : Judge where
  isFacade name := !Text.sameIgnoringCase (Name.shortName name) facade && !bindsFacade facade r name
  isNotice _ := true
  isWrapper _ := false
  isTrigger _ := false

/-- **An alias can count where it is not in scope**: here a notice goes that calls a class of another namespace, since
the namespace in front of it imports the facade under the name of that class. -/
theorem alias_leaks :
    let source := Text.ofString ("<?php\nnamespace A \x7b use Vendor\\Deprecation as Dep; \x7d\n" ++
      "namespace B \x7b class C \x7b function f() \x7b Dep::notice('renamed to D'); \x7d \x7d \x7d\n")
    let c : Config := {}
    let entry : Entry := ⟨.ofString "C", [], .ofString "D", [], []⟩
    ∃ p, parse? source = some p ∧ ∃ r ∈ regions p, ∃ s ∈ r, ∃ m ∈ s.members, ∃ b, m.body? = some b ∧
      ∃ x ∈ b.statements, (c.judge entry p).removes x = true ∧
        ∃ span e target method args, x = .expression span e ∧ e.unwrap = .staticCall (.name target) method args ∧
          Text.sameIgnoringCase (Name.shortName target.text) c.settings.facade = false ∧
          bindsFacade c.settings.facade r target.text = false := by
  intro source c entry
  have h : ((parse? source).any fun p => (regions p).any fun r => r.any fun s => s.members.any fun m =>
      m.body?.any fun b => b.statements.any fun x =>
        (c.judge entry p).removes x && ((strangerJudge c.settings.facade r).inspect x).isSome) = true := by decide +kernel
  obtain ⟨p, hp, h⟩ := (Option.any_eq_true _ _).mp h
  obtain ⟨r, hr, h⟩ := List.any_eq_true.mp h
  obtain ⟨s, hs, h⟩ := List.any_eq_true.mp h
  obtain ⟨m, hm, h⟩ := List.any_eq_true.mp h
  obtain ⟨b, hb, h⟩ := (Option.any_eq_true _ _).mp h
  obtain ⟨x, hx, h⟩ := List.any_eq_true.mp h
  obtain ⟨hremoves, h⟩ := Bool.and_eq_true_iff.mp h
  refine ⟨p, hp, r, hr, s, hs, m, hm, b, hb, x, hx, hremoves, ?_⟩
  obtain ⟨v, hv⟩ := Option.isSome_iff_exists.mp h
  obtain ⟨span, e, rfl, -⟩ := exists_of_inspect hv
  obtain ⟨target, method, args, he, hf⟩ := exists_call_of_inspectExpr (e := e) h
  simp only [strangerJudge, Bool.and_eq_true, Bool.not_eq_true'] at hf
  exact ⟨span, e, target, method, args, rfl, he, hf⟩

end Polyfill
