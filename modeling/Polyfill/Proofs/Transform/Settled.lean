import Polyfill.Proofs.Mapping.Settle
import Polyfill.Proofs.Notice.Spelling
import Polyfill.Proofs.Notice.Triggers
import Polyfill.Proofs.Transform.Again

/-! # Files that are settled

Whether a second transformation finds something to do depends on the table and on what the parser reads in the output.
Let it read there what the first transformation has printed: the namespaces and classes of the source under the names
they have got, no further names of the facade, and in the statement lists no call of the facade but those that stayed.
Then no notice is left, since a judge that knows the facade under fewer names removes less, and if the new names of the
table lie apart from its old ones, no name is to change.

* `Reread`: what the parser reads in the output.
* `Reread.removedCount_eq_zero`, `Reread.renames_eq_nil`: nothing is left to do.
* `transform_again_of_reread`: a second transformation leaves the file as it is. -/

namespace Polyfill

open Source Notice Mapping Text Prune

/-- The names of the namespaces that a file declares. -/
def namespaceNames (p : Program) : List Text :=
  (declared p).filterMap fun
    | .namespaceDecl _ (some ident) _ => some ident.text
    | _ => none

/-- The names of the classes that a file declares at the top level and in namespaces. -/
def classNames (p : Program) : List Text :=
  (declared p).filterMap fun
    | .classDecl _ ident _ _ => some ident.text
    | _ => none

/-- **What the parser reads in the output**: `p` is the source as it was transformed, and `p'` is read. -/
structure Reread (c : Config) (entry : Entry) (p p' : Program) : Prop where
  namespaces : ∀ n ∈ namespaceNames p', ∃ m ∈ namespaceNames p, (c.table.resolveNamespace entry m).getD m = n
  classes : ∀ n ∈ classNames p', ∃ m ∈ classNames p, (c.table.resolveClass entry m).getD m = n
  aliases : facadeAliases c.settings.facade p' ⊆ facadeAliases c.settings.facade p
  /-- A call of the facade in a list was one before, up to its spelling, and it stayed. -/
  calls : ∀ l' ∈ visitedLists (c.judge entry p').removes p', ∀ s' ∈ l'.statements,
    ((c.judge entry p').inspect s').isSome = true →
      ∃ l ∈ visitedLists (c.judge entry p).removes p, ∃ s ∈ l.statements,
        s.plain = s'.plain ∧ (c.judge entry p).removes s = false

variable {c : Config} {entry : Entry} {p p' : Program}

theorem judge_within (h : facadeAliases c.settings.facade p' ⊆ facadeAliases c.settings.facade p) :
    (c.judge entry p').Within (c.judge entry p) :=
  within_ofSettings rfl rfl rfl h (List.Subset.refl _) (List.Subset.refl _)

/-- No notice is left. -/
theorem Reread.removedCount_eq_zero (h : Reread c entry p p') : removedCount (c.judge entry p') p' = 0 := by
  rw [removedCount_eq_zero_iff]
  intro l' hl' s' hs' hr
  have hinspect := removes_iff.mp hr
  obtain ⟨l, -, s, -, hplain, hstays⟩ := h.calls l' hl' s' hs' (by rw [hinspect]; rfl)
  -- the judge of the source removes the call too, and so it removes the call as it was spelled there
  have hbefore := Judge.inspect_mono (judge_within h.aliases) s' hinspect
  have hcase := Judge.ignoresCase_ofSettings c.settings (facadeAliases c.settings.facade p)
    (if c.settings.configAware then tokensOf entry else [])
  have hsame : (c.judge entry p).inspect s = (c.judge entry p).inspect s' := by
    rw [Config.judge, ← Judge.inspect_plain hcase s, hplain, Judge.inspect_plain hcase s']
  rw [removes_iff.mpr (hsame.trans hbefore)] at hstays
  cases hstays

theorem renames_eq_nil {t : Table} (hnamespaces : ∀ n ∈ namespaceNames p', t.resolveNamespace entry n = none)
    (hclasses : ∀ n ∈ classNames p', t.resolveClass entry n = none) : renames t entry p' = [] := by
  rw [renames, List.filterMap_eq_nil_iff]
  intro s hs
  cases s with
  | namespaceDecl span ident ss =>
    cases ident with
    | none => rfl
    | some ident =>
      rw [renameOf, hnamespaces ident.text (List.mem_filterMap.mpr ⟨_, hs, rfl⟩), Option.map_none]
  | classDecl span ident parts ms =>
    rw [renameOf, hclasses ident.text (List.mem_filterMap.mpr ⟨_, hs, rfl⟩), Option.map_none]
  | _ => rfl

theorem resolve_getD_eq_none {resolve : Text → Option Text}
    (hsettles : ∀ name target, resolve name = some target → resolve target = none) (name : Text) :
    resolve ((resolve name).getD name) = none := by
  cases h : resolve name with
  | none => exact h
  | some target => exact hsettles name target h

/-- No name is to change, if new names are left alone. -/
theorem Reread.renames_eq_nil (h : Reread c entry p p')
    (hnamespaces : ∀ name target, c.table.resolveNamespace entry name = some target →
      c.table.resolveNamespace entry target = none)
    (hclasses : ∀ name target, c.table.resolveClass entry name = some target →
      c.table.resolveClass entry target = none) : renames c.table entry p' = [] := by
  refine Polyfill.renames_eq_nil (fun n hn => ?_) fun n hn => ?_
  · obtain ⟨m, -, rfl⟩ := h.namespaces n hn
    exact resolve_getD_eq_none hnamespaces m
  · obtain ⟨m, -, rfl⟩ := h.classes n hn
    exact resolve_getD_eq_none hclasses m

/-- **A second transformation leaves a file as it is**, if the new names of the table lie apart from the old ones, the
targets of the namespaces that move are in canonical form, the text behind the header is a `namespace` or `declare`
statement, and the parser reads in the output what was printed. -/
theorem transform_again_of_reread [Document.DocumentParser] [SourceParser] [LawfulParser] {document : Text} {c : Config}
    (hload : (load document).2 = .ok c) (hsep : Separated c.table.entries)
    (hcanonical : ∀ g ∈ c.table.entries, g.Moves → Name.normalize g.targetNamespace = g.targetNamespace)
    {entry : Entry} (he : entry ∈ c.table.entries) (hid : Text.includes [0x2A, 0x2F] entry.identity = false)
    {source : Text} {p p' : Program} (hv : source.isValid = true) (hp : parse? source = some p)
    (hstarts : Header.startsFileStatement (Header.stripPrologue (edited source (c.edits entry source p))) = true)
    (hp' : parse? (c.transform entry source).text = some p') (hreread : Reread c entry p p') :
    let first := c.transform entry source
    let second := c.transform entry first.text
    second.stage = .headered ∧ second.removed = 0 ∧ second.renamed = false ∧ second.text = first.text := by
  intro first second
  have htext : first.text = Header.banner entry.identity ++
      Header.stripPrologue (edited source (c.edits entry source p)) :=
    (transform_of_parse c entry (isValid_iff.mp hv) hp).2.1
  have hnames : renames c.table entry p' = [] := by
    obtain ⟨ds, -, hnames, htable⟩ := exists_of_load hload
    rw [← map_sourceClass_entry] at hnames
    rw [htable] at hsep hcanonical he
    refine hreread.renames_eq_nil (fun name target h => ?_) fun name target h => ?_
    · rw [htable] at h ⊢
      exact hsep.resolveNamespace_settles hcanonical he h
    · rw [htable] at h ⊢
      exact hsep.resolveClass_settles hnames he h
  rw [show (c.transform entry source).text = _ from htext] at hp'
  simp only [second, htext]
  exact transform_banner_eq_self hid hstarts hp' hreread.removedCount_eq_zero hnames

/-- A namespace that moves, a class that is renamed, and a notice that goes from the file of one of two entries. -/
theorem transform_again_of_reread_sample :
    let document := Text.ofString ("[classes.'Old\\Foo']\nsource_path = 'a'\ntarget_path = 'b'\n" ++
      "target_namespace = 'New'\ntarget_class = 'Bar'\n[classes.'Old\\Sub\\Two']\nsource_path = 'c'\n" ++
      "target_path = 'd'\ntarget_namespace = 'Other'\ntarget_class = 'Two'\n")
    let source := Text.ofString ("<?php\nnamespace Old;\nclass Foo \x7b function f() \x7b\n" ++
      "Deprecation::notice('renamed to Bar');\necho 1; \x7d \x7d\n")
    ∃ c entry, (load document).2 = .ok c ∧ c.table.get? (.ofString "Old\\Foo") = some entry ∧
      (c.transform entry source).removed = 1 ∧ (c.transform entry source).renamed = true ∧
      (c.transform entry (c.transform entry source).text).text = (c.transform entry source).text := by
  intro document source
  obtain ⟨c, hload, entry, hentry, hsep, hcanonical, hid, hremoved, hrenamed, p, hp, hstarts, p', hp', hnamespaces,
      hclasses, haliases, hcalls⟩ :=
    exists_load_of_any document (P := fun c => ∃ entry ∈ c.table.get? (.ofString "Old\\Foo"),
      Separated c.table.entries ∧
      (∀ g ∈ c.table.entries, g.Moves → Name.normalize g.targetNamespace = g.targetNamespace) ∧
      Text.includes [0x2A, 0x2F] entry.identity = false ∧
      (c.transform entry source).removed = 1 ∧ (c.transform entry source).renamed = true ∧
      ∃ p ∈ parse? source,
        Header.startsFileStatement (Header.stripPrologue (edited source (c.edits entry source p))) = true ∧
        ∃ p' ∈ parse? (c.transform entry source).text,
          (∀ n ∈ namespaceNames p', ∃ m ∈ namespaceNames p, (c.table.resolveNamespace entry m).getD m = n) ∧
          (∀ n ∈ classNames p', ∃ m ∈ classNames p, (c.table.resolveClass entry m).getD m = n) ∧
          facadeAliases c.settings.facade p' = [] ∧
          ∀ l' ∈ visitedLists (c.judge entry p').removes p', ∀ s' ∈ l'.statements,
            (c.judge entry p').inspect s' = none) (by decide +kernel)
  have hreread : Reread c entry p p' := {
    namespaces := hnamespaces
    classes := hclasses
    aliases := by simp [haliases]
    calls := fun l' hl' s' hs' h => by simp [hcalls l' hl' s' hs'] at h }
  have hsecond := transform_again_of_reread hload hsep hcanonical (List.mem_of_find?_eq_some hentry) hid
    (isValid_ofString _) hp hstarts hp' hreread
  exact ⟨c, entry, hload, hentry, hremoved, hrenamed, hsecond.2.2.2⟩

end Polyfill
