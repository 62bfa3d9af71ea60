import Polyfill.Proofs.Prune.Slices
import Polyfill.Proofs.Source.Parse
import Polyfill.Transform

/-! # When a transformation fails

The tree of a source lies well in it, so no slice of the source fails, all edits of the file fit it and are apart, and
they are always applied. Only a source that the parser gives no tree of is left as it is.

* `parse?_declaredIn`: the declarations of a file that parses come one after the other.
* `applyEdits_edits`: the edits of a file are applied.
* `transform_failed_iff`: a transformation fails if and only if the source does not parse. -/

namespace Polyfill

open Source Notice Mapping Text

/-- What a parser that gives no tree says instead. -/
def Source.Parsed.failure? : Parsed → Option Failure
  | tree _ => none
  | errors n => some (.unparsable n)
  | panicked => some .panicked

theorem isBoundary_zero {source : Text} (hv : Encoded source) : source.isBoundary 0 = true :=
  (Cuts.zero hv).isBoundary (Nat.zero_le _)

section Parser

variable [SourceParser] {c : Config} {entry : Entry} {source : Text} {p : Program}

theorem parse_eq_tree (hp : parse? source = some p) : SourceParser.parse source = .tree p := by
  rw [parse?] at hp
  cases h : SourceParser.parse source with
  | tree q =>
    rw [h] at hp
    cases hp
    rfl
  | _ => simp [h, Parsed.tree?] at hp

theorem withProgram_of_parse {α : Type} {visit : Program → Option α} {a : α} (hp : parse? source = some p)
    (ha : visit p = some a) : withProgram source visit = .ok a := by
  simp only [withProgram, parse_eq_tree hp, ha]

theorem exists_of_withProgram {α : Type} {visit : Program → Option α} {a : α} (h : withProgram source visit = .ok a) :
    ∃ p, parse? source = some p ∧ visit p = some a := by
  unfold withProgram at h
  split at h
  · cases h
  · cases h
  · next p hs =>
    refine ⟨p, by rw [parse?, hs, Parsed.tree?], ?_⟩
    split at h
    · cases h
    · next ha =>
      cases h
      exact ha

theorem transform_of_prune? (c : Config) (entry : Entry) {pruned : Prune.Pruned} (hp : parse? source = some p)
    (hprune : c.prune? entry source p = some pruned) :
    c.transform entry source = .ofPruned entry source pruned (renames c.table entry p) := by
  rw [Config.transform, withProgram_of_parse hp (by rw [hprune]; rfl)]

theorem transform_of_parse_eq_none (c : Config) (entry : Entry) (hp : parse? source = none) :
    (c.transform entry source).stage = .failed ∧ (c.transform entry source).text = source ∧
      (c.transform entry source).removed = 0 ∧ (c.transform entry source).renamed = false ∧
      (c.transform entry source).failure = (SourceParser.parse source).failure? := by
  cases h : SourceParser.parse source with
  | tree q => simp [parse?, h, Parsed.tree?] at hp
  | _ => simp [Config.transform, withProgram, h, Outcome.fallback, Parsed.failure?]

variable [LawfulParser]

/-- The declarations of a file that parses lie well. -/
theorem parse?_declaredIn (hv : Encoded source) (hp : parse? source = some p) :
    DeclaredIn source 0 source.length (declared p) :=
  declared_declaredIn p (LawfulParser.laid (isValid_iff.mpr hv) hp)

theorem edits_fit (hv : Encoded source) (hp : parse? source = some p) :
    ∀ x ∈ c.edits entry source p, x.Fits source :=
  Prune.edits_fit (parse?_declaredIn hv hp) hv

theorem edits_apart (hv : Encoded source) (hp : parse? source = some p) :
    (c.edits entry source p).Pairwise Edit.Apart :=
  Prune.edits_apart (parse?_declaredIn hv hp) hv

/-- **The edits of a file that parses are applied.** -/
theorem applyEdits_edits (hv : Encoded source) (hp : parse? source = some p) :
    applyEdits source (c.edits entry source p) = .ok (edited source (c.edits entry source p)) :=
  applyEdits_eq_ok (isBoundary_zero hv) (edits_fit hv hp) (edits_apart hv hp)

theorem prune?_of_parse (hv : Encoded source) (hp : parse? source = some p) :
    c.prune? entry source p = some (c.prune entry source p) :=
  Prune.prune?_eq (parse?_declaredIn hv hp) hv

theorem transform_of_parse (c : Config) (entry : Entry) (hv : Encoded source) (hp : parse? source = some p) :
    (c.transform entry source).stage = .headered ∧
      (c.transform entry source).text =
        Header.apply (edited source (c.edits entry source p)) entry.identity ∧
      (c.transform entry source).removed = (c.prune entry source p).removed ∧
      (c.transform entry source).renamed = !(renames c.table entry p).isEmpty ∧
      (c.transform entry source).failure = none := by
  have happly : applyEdits source (c.edits entry source p) = .ok _ := applyEdits_edits hv hp
  rw [Config.edits] at happly ⊢
  rw [transform_of_prune? c entry hp (prune?_of_parse hv hp)]
  simp only [Outcome.ofPruned, happly, and_self]

/-- **A transformation fails if and only if the source does not parse**, and then it changes nothing and reports what
the parser says. The walk through the tree of a source that parses never panics; its edits lie in the source, cut no
character, have no byte in common and are applied. -/
theorem transform_failed_iff (c : Config) (entry : Entry) {source : Text} (hv : source.isValid = true) :
    ((c.transform entry source).stage = .failed ↔ parse? source = none) ∧
      ((c.transform entry source).stage = .headered ↔ (parse? source).isSome) ∧
      ((c.transform entry source).stage = .failed → (c.transform entry source).text = source ∧
        (c.transform entry source).removed = 0 ∧ (c.transform entry source).renamed = false) ∧
      (c.transform entry source).failure = (SourceParser.parse source).failure? ∧
      ∀ p, parse? source = some p →
        c.prune? entry source p = some (c.prune entry source p) ∧
        (∀ x ∈ c.edits entry source p, x.start < x.stop ∧ x.stop ≤ source.length ∧
          source.isBoundary x.start = true ∧ source.isBoundary x.stop = true) ∧
        (c.edits entry source p).Pairwise (fun a b => a.stop ≤ b.start ∨ b.stop ≤ a.start) ∧
        ∃ printed, applyEdits source (c.edits entry source p) = .ok printed := by
  have hv := isValid_iff.mp hv
  cases hp : parse? source with
  | none =>
    obtain ⟨hstage, htext, hremoved, hrenamed, hfailure⟩ := transform_of_parse_eq_none c entry hp
    exact ⟨iff_of_true hstage rfl, by simp [hstage], fun _ => ⟨htext, hremoved, hrenamed⟩, hfailure, by simp⟩
  | some p =>
    obtain ⟨hstage, -, -, -, hfailure⟩ := transform_of_parse c entry hv hp
    refine ⟨by simp [hstage], by simp [hstage], by simp [hstage], ?_, ?_⟩
    · rw [hfailure, parse_eq_tree hp, Parsed.failure?]
    · rintro p' ⟨⟩
      refine ⟨prune?_of_parse hv hp, fun x hx => ?_, edits_apart hv hp, _, applyEdits_edits hv hp⟩
      obtain ⟨hlt, hle, ho, hc⟩ := edits_fit hv hp x hx
      exact ⟨hlt, hle, ho, hc⟩

end Parser

-- A class without its closing brace.
example :
    let outcome := ({} : Config).transform ⟨.ofString "A", [], .ofString "B", [], []⟩ (.ofString "<?php class A \x7b")
    outcome.stage = .failed ∧ outcome.text = .ofString "<?php class A \x7b" := by
  decide +kernel

/-- A file with a notice next to a statement that stays reaches its header. -/
theorem transform_headered_sample :
    let source := Text.ofString
      "<?php\nclass A \x7b function f() \x7b Deprecation::notice('renamed to B'); echo 1; \x7d \x7d"
    source.isValid = true ∧ (parse? source).isSome = true ∧
      (({} : Config).transform ⟨.ofString "A", [], .ofString "B", [], []⟩ source).stage = .headered :=
  have hv := by decide +kernel
  have hp := by decide +kernel
  ⟨hv, hp, (transform_failed_iff _ _ hv).2.1.mpr hp⟩

end Polyfill
