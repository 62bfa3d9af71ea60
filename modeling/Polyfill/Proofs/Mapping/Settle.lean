import Polyfill.Proofs.Mapping.Resolve
import Polyfill.Proofs.Name.Proper

/-! # Names that stay once they are moved

A new name of a namespace is the target of an entry that moves, with what was carried over behind it, so the target
contains the new name. If the targets lie apart from the namespaces that move, no such namespace contains the new name
either, since of two namespaces that contain a third one contains the other. All this is about names in canonical form,
and that is the form in which a declared name is looked up. So the targets have to be in canonical form as well, or the
name that is looked up again is another one.

* `Separated`: the new names of the entries lie apart from the old ones.
* `Table.contains_of_resolveNamespace`: where a new name lies.
* `Separated.resolveNamespace_eq_none`: what lies in a target stays there.
* `resolution_settles`: a name that was moved or renamed once is left alone from then on.
* `moved_namespace_moves_again`: a target that is not in canonical form can be moved again. -/

namespace Polyfill.Mapping

variable {es : List Entry}

/-- The class of the entry gets a new name. -/
def Entry.Renames (e : Entry) : Prop := e.targetClass ≠ e.sourceClass

instance (e : Entry) : Decidable e.Renames := inferInstanceAs (Decidable (_ ≠ _))

/-- **The new names lie apart from the old ones.** The target of a namespace that moves is not the global namespace, and
neither contains a namespace that moves nor lies in one; and the new name of a class that is renamed is not the old name
of one. -/
structure Separated (es : List Entry) : Prop where
  target_ne_nil : ∀ e ∈ es, e.Moves → e.targetNamespace ≠ []
  not_above : ∀ e ∈ es, e.Moves → ∀ g ∈ es, g.Moves → ¬ Name.Contains e.targetNamespace g.sourceNamespace
  not_below : ∀ e ∈ es, e.Moves → ∀ g ∈ es, g.Moves → ¬ Name.Contains g.sourceNamespace e.targetNamespace
  classes : ∀ e ∈ es, e.Renames → ∀ g ∈ es, g.Renames → e.targetClass ≠ g.sourceClass

theorem separated_iff : Separated es ↔
    ∀ e ∈ es, (e.Moves → e.targetNamespace ≠ [] ∧ ∀ g ∈ es, g.Moves →
      ¬ Name.Contains e.targetNamespace g.sourceNamespace ∧ ¬ Name.Contains g.sourceNamespace e.targetNamespace) ∧
      (e.Renames → ∀ g ∈ es, g.Renames → e.targetClass ≠ g.sourceClass) := by
  constructor
  · intro h e he
    exact ⟨fun hm => ⟨h.target_ne_nil e he hm, fun g hg hgm => ⟨h.not_above e he hm g hg hgm, h.not_below e he hm g hg hgm⟩⟩,
      h.classes e he⟩
  · intro h
    exact {
      target_ne_nil := fun e he hm => ((h e he).1 hm).1
      not_above := fun e he hm g hg hgm => (((h e he).1 hm).2 g hg hgm).1
      not_below := fun e he hm g hg hgm => (((h e he).1 hm).2 g hg hgm).2
      classes := fun e he => (h e he).2 }

instance : Decidable (Separated es) := decidable_of_iff' _ separated_iff

/-! ### Namespaces -/

theorem exists_moves_of_mem_pairs {old new : Text} (h : (old, new) ∈ (Table.ofEntries es).namespaces.pairs) :
    ∃ g ∈ es, g.Moves ∧ g.sourceNamespace = old ∧ g.targetNamespace = new := by
  rw [(Table.keyed_ofEntries es).mem_iff, Table.target?_ofEntries] at h
  obtain ⟨before, g, after, rfl, rfl, rfl, hne, -⟩ := h
  exact ⟨g, by simp, hne, rfl, rfl⟩

/-- **Where a new name lies**: in the target of a namespace that moves. -/
theorem Table.contains_of_resolveNamespace (hne : ∀ e ∈ es, e.Moves → e.targetNamespace ≠ []) {e : Entry} (he : e ∈ es)
    {declared target : Text} (h : (Table.ofEntries es).resolveNamespace e declared = some target) :
    ∃ g ∈ es, g.Moves ∧ Name.Contains g.targetNamespace target := by
  rw [Table.resolveNamespace] at h
  split at h
  · next hown =>
    split at h
    · cases h
    · next hmoves =>
      cases h
      exact ⟨e, he, fun heq => hmoves (hown.trans heq.symm), Or.inl rfl⟩
  · obtain ⟨old, new, rest, hp, hw, -, rfl⟩ :=
      (NamespaceMoves.move?_eq_some_iff (Table.keyed_ofEntries es)).mp h
    obtain ⟨g, hg, hmoves, rfl, rfl⟩ := exists_moves_of_mem_pairs hp
    refine ⟨g, hg, hmoves, ?_⟩
    rw [Match.result, if_neg (by simpa using hne g hg hmoves), Name.contains_append_iff]
    exact (Name.within?_eq_some_iff.mp hw).2

/-- **What lies in a target stays there**, in the files of every entry. -/
theorem Separated.resolveNamespace_eq_none (h : Separated es) {g e : Entry} (hg : g ∈ es) (hmoves : g.Moves)
    (he : e ∈ es) {declared : Text} (hd : Name.Contains g.targetNamespace (Name.normalize declared)) :
    (Table.ofEntries es).resolveNamespace e declared = none := by
  -- no namespace that moves contains the name
  have hapart : ∀ x ∈ es, x.Moves → ¬ Name.Contains x.sourceNamespace (Name.normalize declared) := by
    intro x hx hxm hcontains
    rcases hcontains.or_contains hd with hbelow | habove
    · exact h.not_below g hg hmoves x hx hxm hbelow
    · exact h.not_above g hg hmoves x hx hxm habove
  rw [Table.resolveNamespace]
  split
  · next hown =>
    have hstays : e.targetNamespace = e.sourceNamespace := by
      by_contra hem
      exact hapart e he hem (Or.inl hown)
    rw [if_pos (hown.trans hstays.symm)]
  · rw [NamespaceMoves.move?_eq_none_iff]
    rintro ⟨old, new⟩ hp
    obtain ⟨x, hx, hxm, rfl, rfl⟩ := exists_moves_of_mem_pairs hp
    exact Name.within?_eq_none_iff.mpr (hapart x hx hxm)

theorem Separated.resolveNamespace_settles (h : Separated es)
    (hcanonical : ∀ g ∈ es, g.Moves → Name.normalize g.targetNamespace = g.targetNamespace) {e : Entry} (he : e ∈ es)
    {declared target : Text} (ht : (Table.ofEntries es).resolveNamespace e declared = some target) :
    (Table.ofEntries es).resolveNamespace e target = none := by
  obtain ⟨g, hg, hmoves, hcontains⟩ := Table.contains_of_resolveNamespace h.target_ne_nil he ht
  refine h.resolveNamespace_eq_none hg hmoves he ?_
  exact hcontains.normalize (h.target_ne_nil g hg hmoves) (hcanonical g hg hmoves)

/-! ### Classes -/

theorem Separated.resolveClass_settles (h : Separated es) (hnames : (es.map Entry.sourceClass).Nodup) {e : Entry}
    (he : e ∈ es) {declared target : Text} (ht : (Table.ofEntries es).resolveClass e declared = some target) :
    (Table.ofEntries es).resolveClass e target = none := by
  rw [Table.resolveClass_ofEntries hnames he] at ht ⊢
  obtain ⟨x, hx, hold, hnew, hne⟩ := (Table.get?_ofEntries hnames).mp ht
  cases hagain : (Table.ofEntries es).classes.get? target with
  | none => rfl
  | some again =>
    obtain ⟨y, hy, hyold, hynew, hyne⟩ := (Table.get?_ofEntries hnames).mp hagain
    have hxr : x.Renames := by rw [Entry.Renames, hold, hnew]; exact hne
    have hyr : y.Renames := by rw [Entry.Renames, hyold, hynew]; exact hyne
    exact absurd (hnew.trans hyold.symm) (h.classes x hx hxr y hy hyr)

/-- **A name that was moved or renamed once is left alone from then on**, if the new names of a loaded table lie apart
from its old ones and the targets of the namespaces that move are in canonical form. Names of the language are stored in
that form unless they have white space at an end. For classes the form does not matter. -/
theorem resolution_settles [Document.DocumentParser] {document : Text} {c : Config}
    (hload : (load document).2 = .ok c) (hsep : Separated c.table.entries) :
    (∀ name, Name.Proper name → (Name.normalize (Name.normalize name) = Name.normalize name ↔
      (Name.normalize name).trim = Name.normalize name)) ∧
    ((∀ g ∈ c.table.entries, g.Moves → Name.normalize g.targetNamespace = g.targetNamespace) →
      ∀ e ∈ c.table.entries, ∀ declared target, c.table.resolveNamespace e declared = some target →
        c.table.resolveNamespace e target = none) ∧
    ∀ e ∈ c.table.entries, ∀ declared target, c.table.resolveClass e declared = some target →
      c.table.resolveClass e target = none := by
  obtain ⟨ds, -, hnames, htable⟩ := exists_of_load hload
  rw [← map_sourceClass_entry] at hnames
  generalize ds.map Declaration.entry = es at htable hnames
  rw [htable] at hsep ⊢
  change Separated es at hsep
  exact ⟨fun name hname => hname.normalize_normalize_iff,
    fun hcanonical e he declared target h => hsep.resolveNamespace_settles hcanonical he h,
    fun e he declared target h => hsep.resolveClass_settles hnames he h⟩

/-- Two entries of one namespace, the second of which lost the conflict about its target: each new name stays. -/
theorem resolution_settles_sample :
    let document := Text.ofString ("[classes.'Old\\Foo']\nsource_path = 'a'\ntarget_path = 'b'\n" ++
      "target_namespace = '\\New\\Foo'\ntarget_class = 'Bar'\n[classes.'Old\\Two']\nsource_path = 'c'\n" ++
      "target_path = 'd'\ntarget_namespace = 'Other'\ntarget_class = 'Two'\n")
    ∃ c, (load document).2 = .ok c ∧ Separated c.table.entries ∧
      (∀ g ∈ c.table.entries, g.Moves → Name.normalize g.targetNamespace = g.targetNamespace) ∧
      ∃ e ∈ c.table.entries,
        c.table.resolveNamespace e (.ofString "Old") = some (.ofString "Other") ∧
        c.table.resolveNamespace e (.ofString "Other") = none ∧
        c.table.resolveNamespace e (.ofString "Old\\Sub") = some (.ofString "New\\Foo\\Sub") ∧
        c.table.resolveNamespace e (.ofString "New\\Foo\\Sub") = none ∧
        c.table.resolveClass e (.ofString "Foo") = some (.ofString "Bar") ∧
        c.table.resolveClass e (.ofString "Bar") = none := by
  intro document
  obtain ⟨c, hload, hsep, hcanonical, e, he, hother, hnew, hbar⟩ := exists_load_of_any document
    (P := fun c => Separated c.table.entries ∧
      (∀ g ∈ c.table.entries, g.Moves → Name.normalize g.targetNamespace = g.targetNamespace) ∧
      ∃ e ∈ c.table.entries,
        c.table.resolveNamespace e (.ofString "Old") = some (.ofString "Other") ∧
        c.table.resolveNamespace e (.ofString "Old\\Sub") = some (.ofString "New\\Foo\\Sub") ∧
        c.table.resolveClass e (.ofString "Foo") = some (.ofString "Bar"))
    (by decide +kernel)
  obtain ⟨-, hnamespaces, hclasses⟩ := resolution_settles hload hsep
  have hstays := hnamespaces hcanonical e he
  exact ⟨c, hload, hsep, hcanonical, e, he, hother, hstays _ _ hother, hnew, hstays _ _ hnew, hbar,
    hclasses e he _ _ hbar⟩

/-- **A namespace that was moved can be moved again**, though the new names lie apart from the old ones and all declared
names are names of the language: the target of the first entry is stored with white space at its end, and looked up
without it. -/
theorem moved_namespace_moves_again :
    let document := Text.ofString ("[classes.'A\\X']\nsource_path = 'a'\ntarget_path = 'b'\n" ++
      "target_namespace = 'B\u3000\\\u3000'\ntarget_class = 'X'\n[classes.'B\\Y']\nsource_path = 'c'\n" ++
      "target_path = 'd'\ntarget_namespace = 'C'\ntarget_class = 'Y'\n")
    let declared : List Declaration := [
      (.ofString "A\\X", ⟨.ofString "a", .ofString "b", .ofString "B\u3000\\\u3000", .ofString "X"⟩),
      (.ofString "B\\Y", ⟨.ofString "c", .ofString "d", .ofString "C", .ofString "Y"⟩)]
    (∃ settings, (Document.parse document).bind shapeOf = some ⟨settings, some declared⟩) ∧
      (∀ d ∈ declared, Name.Proper d.1 ∧ Name.Proper d.2.targetNamespace ∧ Name.Proper d.2.targetClass) ∧
      ∃ c, (load document).2 = .ok c ∧ Separated c.table.entries ∧ ∃ e ∈ c.table.entries,
        c.table.resolveNamespace e (.ofString "A") = some (.ofString "B\u3000") ∧
        c.table.resolveNamespace e (.ofString "B\u3000") = some (.ofString "C") := by
  intro document declared
  have hshape : (((Document.parse document).bind shapeOf).any fun s => s.classes == some declared) = true := by
    decide +kernel
  obtain ⟨⟨settings, classes⟩, hshape, hclasses⟩ := (Option.any_eq_true _ _).mp hshape
  cases beq_iff_eq.mp hclasses
  exact ⟨⟨settings, hshape⟩, by decide +kernel, exists_load_of_any document (by decide +kernel)⟩

end Polyfill.Mapping
