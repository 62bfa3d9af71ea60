import Polyfill.Proofs.Edit.Words
import Polyfill.Proofs.Mapping.Resolve
import Polyfill.Proofs.Transform.Outcome

/-! # Which names change

An outcome tells whether a declaration got a new name. A new class name differs from the old one, and so does a new
namespace from the canonical form of the old one. So at least one declared name is printed differently, unless the only
namespaces with new names are written in another than the canonical form. Such a namespace can get as its new name what
it is already written as: the new name is canonical only as far as taking one separator off makes it so.

* `printedName`: what stands in the edited text in place of a name.
* `printedName_of_rename`, `printedName_of_kept`: a name is printed as its new name, or as it was.
* `renamed_iff_printed_otherwise`: when an outcome tells that a declaration was renamed.
* `renamed_to_itself`: it can tell so although all names stay. -/

namespace Polyfill

open Source Notice Mapping Text Prune Edit

variable {c : Config} {entry : Entry} {source : Text} {p : Program} {es : List Edit} {n : Ident}

/-! ### Names in the edited text -/

/-- What stands in the edited text in place of a name. -/
def printedName (source : Text) (es : List Edit) (n : Ident) : Text :=
  (edited source es).slice (place source es n.span.start) (place source es n.span.stop)

theorem slice_edited {a z : ℕ} (haz : a ≤ z) (hz : z ≤ source.length) :
    (edited source es).slice (place source es a) (place source es z) =
      (List.range' a (z - a)).flatMap (atByte source es) := by
  have hfront : List.range z = List.range a ++ List.range' a (z - a) := by
    rw [List.range_eq_range', List.range_eq_range']
    exact range'_split (Nat.zero_le a) haz
  have hall : List.range source.length = List.range z ++ List.range' z (source.length - z) := by
    rw [List.range_eq_range', List.range_eq_range']
    exact range'_split (Nat.zero_le z) hz
  rw [slice, edited, hall, hfront, place, place, hfront]
  simp only [List.flatMap_append, List.append_assoc, List.length_append, Nat.add_sub_cancel_left]
  rw [List.drop_left, List.take_left]

section File

variable [SourceParser] [LawfulParser] (hv : Encoded source) (hp : parse? source = some p)
include hv hp

theorem name_le (hn : n ∈ declaredNames p) : n.span.start ≤ n.span.stop ∧ n.span.stop ≤ source.length :=
  have h := name_named (parse?_declaredIn hv hp) hn
  ⟨h.lt.le, h.le⟩

/-- **A declaration that is renamed is printed with its new name.** -/
theorem printedName_of_rename {r : Rename} (hr : r ∈ renames c.table entry p) :
    printedName source (c.edits entry source p) r.ident = r.target := by
  obtain ⟨hle, hstop⟩ := name_le hv hp (ident_mem_declaredNames hr)
  have hmem : r.edit ∈ c.edits entry source p := List.mem_append_right _ (List.mem_map_of_mem hr)
  have hfits := Prune.renameEdit_fits (parse?_declaredIn hv hp) hr
  rw [printedName, slice_edited hle hstop]
  exact flatMap_atByte_of_touched hfits.lt fun i hi hi' =>
    find?_touches (edits_apart hv hp) hmem (touches_iff.mpr ⟨hi, hi'⟩)

/-- **A declaration that is not renamed is printed with its old name.** -/
theorem printedName_of_kept (hn : n ∈ declaredNames p) (hkept : ∀ r ∈ renames c.table entry p, r.ident ≠ n) :
    printedName source (c.edits entry source p) n = n.text := by
  have hd := parse?_declaredIn hv hp
  obtain ⟨hle, hstop⟩ := name_le hv hp hn
  rw [printedName, slice_edited hle hstop, flatMap_atByte_of_not_touched, (name_named hd hn).text]
  intro e he i hi hi'
  rw [touches_eq_false_iff]
  rcases List.mem_append.mp he with he | he
  · have hapart := prune_edits_apart_names hd hv he hn
    rcases hapart with h | h
    · exact Or.inr (h.trans hi)
    · exact Or.inl (hi'.trans_le h)
  · obtain ⟨r, hr, rfl⟩ := List.mem_map.mp he
    rcases rel_or_rel_of_pairwise (declaredNames_ordered hd) (ident_mem_declaredNames hr) hn (hkept r hr) with h | h
    · exact Or.inr (h.trans hi)
    · exact Or.inl (hi'.trans_le h)

end File

/-! ### New names -/

theorem rename_of_namespace {span : Span} {ss : List Stmt} {target : Text}
    (hs : Stmt.namespaceDecl span (some n) ss ∈ declared p)
    (h : c.table.resolveNamespace entry n.text = some target) : ⟨true, n, target⟩ ∈ renames c.table entry p :=
  List.mem_filterMap.mpr ⟨_, hs, by simp [renameOf, h]⟩

/-- A new name is that of a namespace or that of a class. -/
theorem rename_cases {r : Rename} (hr : r ∈ renames c.table entry p) :
    (∃ span ss, Stmt.namespaceDecl span (some r.ident) ss ∈ declared p ∧
        c.table.resolveNamespace entry r.ident.text = some r.target) ∨
      c.table.resolveClass entry r.ident.text = some r.target := by
  obtain ⟨s, hs, hr⟩ := List.mem_filterMap.mp hr
  cases s with
  | namespaceDecl span ident ss =>
    cases ident with
    | none => simp [renameOf] at hr
    | some ident =>
      obtain ⟨target, htarget, rfl⟩ := Option.map_eq_some_iff.mp hr
      exact Or.inl ⟨span, ss, hs, htarget⟩
  | classDecl span ident attributes ms =>
    obtain ⟨target, htarget, rfl⟩ := Option.map_eq_some_iff.mp hr
    exact Or.inr htarget
  | _ => simp [renameOf] at hr

theorem renamed_iff [SourceParser] [LawfulParser] (hv : Encoded source) (hp : parse? source = some p) :
    (c.transform entry source).renamed = true ↔ ∃ r, r ∈ renames c.table entry p := by
  rw [(transform_of_parse c entry hv hp).2.2.2.1, Bool.not_eq_true', List.isEmpty_eq_false_iff_exists_mem]

/-- **When an outcome tells that a declaration was renamed.** A new name is never what the old one was looked up by. So
an outcome tells of a new name if and only if at least one declared name is printed otherwise than it is written in the
source, or there is a namespace, not in canonical form, whose new name is what is written. -/
theorem renamed_iff_printed_otherwise [Document.DocumentParser] [SourceParser] [LawfulParser] {document : Text}
    {c : Config} (hload : (load document).2 = .ok c) (entry : Entry) {source : Text} {p : Program}
    (hv : source.isValid = true) (hp : parse? source = some p) :
    (∀ declared, c.table.resolveNamespace entry declared ≠ some (Name.normalize declared)) ∧
    (∀ declared, c.table.resolveClass entry declared ≠ some declared) ∧
    (c.transform entry source).stage = .headered ∧
    (c.transform entry source).text = Header.apply (edited source (c.edits entry source p)) entry.identity ∧
    ((c.transform entry source).renamed = true ↔
      (∃ n ∈ declaredNames p,
        printedName source (c.edits entry source p) n ≠ source.slice n.span.start n.span.stop) ∨
      ∃ span n ss, Stmt.namespaceDecl span (some n) ss ∈ declared p ∧ Name.normalize n.text ≠ n.text ∧
        c.table.resolveNamespace entry n.text = some n.text) := by
  have hnamespace := resolveNamespace_ne_some_self hload entry
  have hclass := resolveClass_ne_some_self hload entry
  have hv := isValid_iff.mp hv
  have hd := parse?_declaredIn hv hp
  refine ⟨hnamespace, hclass, (transform_of_parse c entry hv hp).1, (transform_of_parse c entry hv hp).2.1, ?_⟩
  rw [renamed_iff hv hp]
  constructor
  · rintro ⟨r, hr⟩
    have hn := ident_mem_declaredNames hr
    by_cases hsame : r.target = r.ident.text
    · -- only the new name of a namespace can be what is written
      rcases rename_cases hr with ⟨span, ss, hs, htarget⟩ | htarget
      · rw [hsame] at htarget
        refine Or.inr ⟨span, r.ident, ss, hs, fun hcanonical => hnamespace r.ident.text ?_, htarget⟩
        rw [hcanonical, htarget]
      · rw [hsame] at htarget
        exact absurd htarget (hclass _)
    · refine Or.inl ⟨r.ident, hn, ?_⟩
      rwa [printedName_of_rename hv hp hr, (name_named hd hn).text]
  · rintro (⟨n, hn, hprinted⟩ | ⟨span, n, ss, hs, -, htarget⟩)
    · by_contra hnone
      push Not at hnone
      refine hprinted ?_
      rw [printedName_of_kept hv hp hn fun r hr => absurd hr (hnone r), (name_named hd hn).text]
    · exact ⟨_, rename_of_namespace hs htarget⟩

/-- A namespace moves and a class does not, so one of two names is printed otherwise. -/
theorem renamed_iff_printed_otherwise_sample :
    let document := Text.ofString ("[classes.'A\\Foo']\nsource_path = 'a'\ntarget_path = 'b'\n" ++
      "target_namespace = 'B'\ntarget_class = 'Foo'\n")
    let source := Text.ofString "<?php\nnamespace A\\Sub;\nclass Foo \x7b\x7d\n"
    ∃ c entry p, (load document).2 = .ok c ∧ c.table.get? (.ofString "A\\Foo") = some entry ∧
      source.isValid = true ∧ parse? source = some p ∧ (c.transform entry source).renamed = true ∧
      ∃ n ∈ declaredNames p,
        printedName source (c.edits entry source p) n ≠ source.slice n.span.start n.span.stop := by
  intro document source
  have h : ((load document).2.toOption.any fun c => (c.table.get? (.ofString "A\\Foo")).any fun entry =>
      (parse? source).any fun p => (c.transform entry source).renamed &&
        (declared p).all fun s => s.declaredName?.all fun n => Name.normalize n.text == n.text) = true := by
    decide +kernel
  obtain ⟨c, hc, h⟩ := (Option.any_eq_true _ _).mp h
  obtain ⟨entry, hentry, h⟩ := (Option.any_eq_true _ _).mp h
  obtain ⟨p, hp, h⟩ := (Option.any_eq_true _ _).mp h
  rw [Bool.and_eq_true, List.all_eq_true] at h
  have hload := load_of_toOption hc
  have hv : source.isValid = true := isValid_ofString _
  refine ⟨c, entry, p, hload, hentry, hv, hp, h.1, ?_⟩
  refine ((renamed_iff_printed_otherwise hload entry hv hp).2.2.2.2.mp h.1).resolve_right ?_
  rintro ⟨span, n, ss, hs, hcanonical, -⟩
  exact hcanonical (by simpa [Stmt.declaredName?] using h.2 _ hs)

/-- **An outcome can tell of a new name although all names stay**: the namespace is looked up without the white space at
its end, which belongs to the name, and the new name has that white space too. -/
theorem renamed_to_itself :
    let document := Text.ofString ("[classes.'B\\X']\nsource_path = 'a'\ntarget_path = 'b'\n" ++
      "target_namespace = 'B\u3000\\'\ntarget_class = 'X'\n")
    let source := Text.ofString "<?php\nnamespace B\u3000;\nclass X \x7b\x7d\n"
    ∃ c entry p, (load document).2 = .ok c ∧ c.table.get? (.ofString "B\\X") = some entry ∧
      parse? source = some p ∧ (c.transform entry source).stage = .headered ∧
      (c.transform entry source).renamed = true ∧ edited source (c.edits entry source p) = source ∧
      ∀ n ∈ declaredNames p,
        printedName source (c.edits entry source p) n = source.slice n.span.start n.span.stop := by
  intro document source
  have h : ((load document).2.toOption.any fun c => (c.table.get? (.ofString "B\\X")).any fun entry =>
      (parse? source).any fun p => (c.transform entry source).stage == .headered &&
        ((c.transform entry source).renamed && (edited source (c.edits entry source p) == source &&
          (declaredNames p).all fun n => printedName source (c.edits entry source p) n ==
            source.slice n.span.start n.span.stop))) = true := by
    decide +kernel
  obtain ⟨c, hc, h⟩ := (Option.any_eq_true _ _).mp h
  obtain ⟨entry, hentry, h⟩ := (Option.any_eq_true _ _).mp h
  obtain ⟨p, hp, h⟩ := (Option.any_eq_true _ _).mp h
  simp only [Bool.and_eq_true, beq_iff_eq, List.all_eq_true] at h
  exact ⟨c, entry, p, load_of_toOption hc, hentry, hp, h.1, h.2.1, h.2.2⟩

end Polyfill
