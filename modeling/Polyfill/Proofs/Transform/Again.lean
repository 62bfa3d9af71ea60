import Polyfill.Proofs.Header.Banner
import Polyfill.Proofs.Mapping.Load
import Polyfill.Proofs.Transform.Outcome

/-! # Transforming a file twice

A transformed file is left as it is by a second transformation if nothing is left to do in it: it parses, it holds no
rename notice, no name it declares is to change, and its banner is recognized, which is so in front of a `namespace`
or `declare` statement. Each of these can fail. The names in a file are those that the first transformation gave it,
and where the new namespace of one entry is the old one of another, they change again.

* `prune_edits_eq_nil`: without a rename notice nothing is pruned.
* `transform_of_nothing_to_do`: the outcome for a file in which nothing is to change.
* `transform_again_iff`: when a second transformation leaves a file as it is.
* `namespace_moves_twice`: it can rename what the first has renamed.
* `output_does_not_parse`: it can fail. -/

namespace Polyfill

open Source Notice Mapping Text Prune

section Parser

variable [SourceParser] {c : Config} {entry : Entry} {source : Text} {p : Program}

/-! ### Files in which nothing is to change -/

omit [SourceParser] in
theorem removedCount_eq_zero_iff {j : Judge} :
    removedCount j p = 0 ↔ ∀ l ∈ visitedLists j.removes p, ∀ s ∈ l.statements, ¬ j.removes s = true := by
  rw [removedCount, List.length_eq_zero_iff, List.flatMap_eq_nil_iff]
  simp only [listRemoved, List.filter_eq_nil_iff]

omit [SourceParser] in
/-- Without a rename notice nothing is pruned. -/
theorem prune_edits_eq_nil (facade source : Text) {j : Judge} (h : removedCount j p = 0) :
    (Prune.prune facade j source p).edits = [] := by
  have hlists : statementEdits j source p = [] := by
    rw [statementEdits, List.flatMap_eq_nil_iff]
    intro l hl
    have hnone : l.statements.any j.removes = false := by
      rw [List.any_eq_false]
      exact removedCount_eq_zero_iff.mp h l hl
    rw [listEdits, if_neg (by simp [hnone])]
  simp only [Prune.prune, hlists, droppedImports, if_pos h, List.map_nil, List.append_nil]

omit [SourceParser] in
theorem prune?_of_removedCount_eq_zero {facade : Text} {j : Judge} (h : removedCount j p = 0) :
    prune? facade j source p = some (Prune.prune facade j source p) := by
  have hlists : (visitedLists j.removes p).mapM (listEdits? j source) =
      some ((visitedLists j.removes p).map fun _ => []) :=
    mapM_eq_some_map fun l hl => by
      rw [listEdits?, if_neg fun hany => ?_]
      · rfl
      · obtain ⟨s, hs, hr⟩ := List.any_eq_true.mp hany
        exact removedCount_eq_zero_iff.mp h l hl s hs hr
  have hedits : statementEdits j source p = [] := (List.append_eq_nil_iff.mp (prune_edits_eq_nil facade source h)).1
  rw [prune?, hlists, Prune.prune, droppedImports, hedits]
  simp [h]

omit [SourceParser] in
theorem prune?_removed {facade : Text} {j : Judge} {pruned : Pruned} (h : prune? facade j source p = some pruned) :
    pruned.removed = removedCount j p := by
  simp only [prune?, Option.bind_eq_bind, Option.bind_eq_some_iff] at h
  obtain ⟨lists, -, h⟩ := h
  split at h
  · cases h
    rfl
  · obtain ⟨dropped, -, heq⟩ := Option.bind_eq_some_iff.mp h
    cases heq
    rfl

omit [SourceParser] in
theorem applyEdits_nil (h : source.isBoundary 0 = true) : applyEdits source [] = .ok source := by
  have hslice : source.slice? 0 source.length = some source := by
    rw [slice?, if_pos ⟨Nat.zero_le _, h, by simp [isBoundary]⟩]
    simp [slice]
  simp only [applyEdits, Edit.sort, applySorted, hslice]

/-- The outcome for a file in which nothing is to change: it gets its header. -/
theorem transform_of_nothing_to_do (hb : source.isBoundary 0 = true) (hp : parse? source = some p)
    (hnotices : removedCount (c.judge entry p) p = 0) (hnames : renames c.table entry p = []) :
    (c.transform entry source).stage = .headered ∧ (c.transform entry source).removed = 0 ∧
      (c.transform entry source).renamed = false ∧
      (c.transform entry source).text = Header.apply source entry.identity := by
  have hedits := prune_edits_eq_nil c.settings.facade source hnotices
  have hremoved : (Prune.prune c.settings.facade (c.judge entry p) source p).removed = 0 := hnotices
  rw [transform_of_prune? c entry hp (prune?_of_removedCount_eq_zero hnotices)]
  simp only [Outcome.ofPruned, hedits, hnames, List.map_nil, List.append_nil, applyEdits_nil hb, hremoved,
    List.isEmpty_nil, Bool.not_true, and_self]

/-- If a transformation succeeds and neither removes nor renames anything, nothing was to change. -/
theorem nothing_to_do_of_transform (hstage : (c.transform entry source).stage = .headered)
    (hremoved : (c.transform entry source).removed = 0) (hrenamed : (c.transform entry source).renamed = false) :
    ∃ p, parse? source = some p ∧ removedCount (c.judge entry p) p = 0 ∧ renames c.table entry p = [] := by
  rw [Config.transform] at hstage hremoved hrenamed
  split at hstage
  · cases hstage
  · next pruned rs hvisit =>
    obtain ⟨p, hp, hpruned⟩ := exists_of_withProgram hvisit
    obtain ⟨pruned, hprune, heq⟩ := Option.map_eq_some_iff.mp hpruned
    cases heq
    refine ⟨p, hp, ?_⟩
    simp only [hvisit, Outcome.ofPruned] at hstage hremoved hrenamed
    split at hstage
    · cases hstage
    · next hedits =>
      simp only [hedits] at hremoved hrenamed
      exact ⟨(prune?_removed hprune).symm.trans hremoved, by simpa using hrenamed⟩

/-! ### The second transformation -/

omit [SourceParser] in
theorem isBoundary_banner (identity body : Text) : (Header.banner identity ++ body).isBoundary 0 = true := by
  rw [Header.banner_eq]
  rfl

theorem transform_banner_eq_self {body : Text} (hid : Text.includes [0x2A, 0x2F] entry.identity = false)
    (hstarts : Header.startsFileStatement body = true) (hp : parse? (Header.banner entry.identity ++ body) = some p)
    (hnotices : removedCount (c.judge entry p) p = 0) (hnames : renames c.table entry p = []) :
    let outcome := c.transform entry (Header.banner entry.identity ++ body)
    outcome.stage = .headered ∧ outcome.removed = 0 ∧ outcome.renamed = false ∧
      outcome.text = Header.banner entry.identity ++ body := by
  obtain ⟨hstage, hremoved, hrenamed, htext⟩ :=
    transform_of_nothing_to_do (isBoundary_banner entry.identity body) hp hnotices hnames
  exact ⟨hstage, hremoved, hrenamed, htext.trans ((Header.apply_banner_eq_self_iff hid body).mpr hstarts)⟩

/-- **When a second transformation leaves a file as it is.** The file that a transformation gives stays as it is if and
only if the text behind its header is a `namespace` or `declare` statement, the file parses, it holds no rename notice,
and no name that it declares is to change. -/
theorem transform_again_iff [LawfulParser] (c : Config) (entry : Entry) {source : Text} {p : Program}
    (hv : source.isValid = true) (hp : parse? source = some p)
    (hid : Text.includes [0x2A, 0x2F] entry.identity = false) :
    let first := c.transform entry source
    let second := c.transform entry first.text
    (second.stage = .headered ∧ second.removed = 0 ∧ second.renamed = false ∧ second.text = first.text) ↔
      Header.startsFileStatement (Header.stripPrologue (edited source (c.edits entry source p))) = true ∧
      ∃ p', parse? first.text = some p' ∧
        (∀ l ∈ visitedLists (c.judge entry p').removes p', ∀ s ∈ l.statements,
          ¬ (c.judge entry p').removes s = true) ∧
        renames c.table entry p' = [] := by
  intro first second
  have htext : first.text = Header.banner entry.identity ++
      Header.stripPrologue (edited source (c.edits entry source p)) :=
    (transform_of_parse c entry (isValid_iff.mp hv) hp).2.1
  change (second.stage = .headered ∧ second.removed = 0 ∧ second.renamed = false ∧ second.text = first.text) ↔ _
  simp only [second]
  generalize Header.stripPrologue (edited source (c.edits entry source p)) = body at htext ⊢
  rw [htext]
  constructor
  · rintro ⟨hstage, hremoved, hrenamed, heq⟩
    obtain ⟨p', hp', hnotices, hnames⟩ := nothing_to_do_of_transform hstage hremoved hrenamed
    have happly := (transform_of_nothing_to_do (isBoundary_banner _ _) hp' hnotices hnames).2.2.2
    exact ⟨(Header.apply_banner_eq_self_iff hid body).mp (happly.symm.trans heq), p', hp',
      removedCount_eq_zero_iff.mp hnotices, hnames⟩
  · rintro ⟨hstarts, p', hp', hnotices, hnames⟩
    exact transform_banner_eq_self hid hstarts hp' (removedCount_eq_zero_iff.mpr hnotices) hnames

end Parser

/-- A file with a namespace and a notice, whose names do not change twice. -/
theorem transform_again_iff_sample :
    let source := Text.ofString ("<?php\nnamespace Old;\nclass Foo \x7b function f() \x7b " ++
      "Deprecation::notice('renamed to Bar'); \x7d \x7d\n")
    let entry : Entry := ⟨.ofString "Old\\Foo", .ofString "New", .ofString "Bar", [], []⟩
    let c : Config := { table := ⟨[entry], ⟨[(.ofString "Old", .ofString "New")]⟩, ⟨[(.ofString "Foo", .ofString "Bar")]⟩⟩ }
    let first := c.transform entry source
    let second := c.transform entry first.text
    source.isValid = true ∧ (parse? source).isSome = true ∧ Text.includes [0x2A, 0x2F] entry.identity = false ∧
      first.removed = 1 ∧ first.renamed = true ∧ second.removed = 0 ∧ second.renamed = false ∧
      second.text = first.text := by
  intro source entry c first second
  have hv : source.isValid = true := isValid_ofString _
  have hid : Text.includes [0x2A, 0x2F] entry.identity = false := rfl
  have hfirst : first.removed = 1 ∧ first.renamed = true := by decide +kernel
  have hstarts : ((parse? source).any fun p =>
      Header.startsFileStatement (Header.stripPrologue (edited source (c.edits entry source p)))) = true := by
    decide +kernel
  obtain ⟨p, hp, hstarts⟩ := (Option.any_eq_true _ _).mp hstarts
  have hagain : ((parse? first.text).any fun p' => (visitedLists (c.judge entry p').removes p').all (fun l =>
      l.statements.all fun s => !(c.judge entry p').removes s) && (renames c.table entry p').isEmpty) = true := by
    decide +kernel
  obtain ⟨p', hp', h⟩ := (Option.any_eq_true _ _).mp hagain
  simp only [Bool.and_eq_true, List.all_eq_true, Bool.not_eq_true', List.isEmpty_iff] at h
  have hsecond := (transform_again_iff c entry hv hp hid).mpr
    ⟨hstarts, p', hp', fun l hl s hs => by simp [h.1 l hl s hs], h.2⟩
  exact ⟨hv, by rw [hp]; rfl, hid, hfirst.1, hfirst.2, hsecond.2⟩

/-- **A namespace can move twice**: the new namespace of one entry is the old one of another, so the second
transformation renames what the first has renamed. -/
theorem namespace_moves_twice :
    let document := Text.ofString ("[classes.'A\\Foo']\nsource_path = 'a'\ntarget_path = 'b'\n" ++
      "target_namespace = 'B'\ntarget_class = 'Foo'\n[classes.'B\\Bar']\nsource_path = 'c'\n" ++
      "target_path = 'd'\ntarget_namespace = 'C'\ntarget_class = 'Bar'\n")
    let source := Text.ofString "<?php\nnamespace A;\nclass Foo \x7b\x7d\n"
    ∃ c entry, (load document).2 = .ok c ∧ c.table.get? (.ofString "A\\Foo") = some entry ∧
      (c.transform entry source).stage = .headered ∧
      (c.transform entry (c.transform entry source).text).renamed = true ∧
      (c.transform entry (c.transform entry source).text).text ≠ (c.transform entry source).text := by
  intro document source
  have h : ((load document).2.toOption.any fun c => (c.table.get? (.ofString "A\\Foo")).any fun entry =>
      (c.transform entry source).stage == .headered &&
        ((c.transform entry (c.transform entry source).text).renamed &&
          (c.transform entry (c.transform entry source).text).text != (c.transform entry source).text)) = true := by
    decide +kernel
  obtain ⟨c, hc, h⟩ := (Option.any_eq_true _ _).mp h
  obtain ⟨entry, hentry, h⟩ := (Option.any_eq_true _ _).mp h
  simp only [Bool.and_eq_true, beq_iff_eq, bne_iff_ne] at h
  exact ⟨c, entry, load_of_toOption hc, hentry, h⟩

/-- **A transformed file need not parse**: here a notice goes together with the closing tag behind it, and what was text
outside the code is now read as code. -/
theorem output_does_not_parse :
    let document := Text.ofString ("[classes.'Old\\Foo']\nsource_path = 'a'\ntarget_path = 'b'\n" ++
      "target_namespace = 'New'\ntarget_class = 'Bar'\n")
    let source := Text.ofString ("<?php\nnamespace Old;\nclass Foo \x7b function f() \x7b\n" ++
      "Deprecation::notice('renamed to Bar') ?>\n<p>\n<?php \x7d \x7d\n")
    ∃ c entry, (load document).2 = .ok c ∧ c.table.get? (.ofString "Old\\Foo") = some entry ∧
      (c.transform entry source).stage = .headered ∧ parse? (c.transform entry source).text = none ∧
      (c.transform entry (c.transform entry source).text).stage = .failed := by
  intro document source
  have h : ((load document).2.toOption.any fun c => (c.table.get? (.ofString "Old\\Foo")).any fun entry =>
      (c.transform entry source).stage == .headered &&
        (parse? (c.transform entry source).text).isNone) = true := by decide +kernel
  obtain ⟨c, hc, h⟩ := (Option.any_eq_true _ _).mp h
  obtain ⟨entry, hentry, h⟩ := (Option.any_eq_true _ _).mp h
  simp only [Bool.and_eq_true, beq_iff_eq, Option.isNone_iff_eq_none] at h
  exact ⟨c, entry, load_of_toOption hc, hentry, h.1, h.2, (transform_of_parse_eq_none c entry h.2).1⟩

end Polyfill
