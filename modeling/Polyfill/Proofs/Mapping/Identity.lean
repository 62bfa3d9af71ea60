import Polyfill.Proofs.Mapping.Load

/-! # Identities and their canonical form

An entry is stored under the canonical form of its key and looked up by the canonical form of the name asked for. The
canonical form of a name has one separator less at each end, and no more, so it need not be its own canonical form: a
key with two separators in front is stored with one, and then not found by its own identity. Such an identity lies in
the global namespace as the simple name itself does, and a join of its parts loses the separator.

* `Table.get?_identity_iff`: when an entry is found by its own identity.
* `identity_found_iff`: the identities of loaded entries that are found, those that their parts give back, and the
  entries of one simple name that lie in one namespace.
* `identity_not_found`: an entry can be stored that is not found by its own identity. -/

namespace Polyfill.Mapping

open Declaration

/-- An entry is found by its own identity if that is in canonical form. -/
theorem Table.get?_identity_iff {t : Table} (hids : (t.entries.map Entry.identity).Nodup) {e : Entry}
    (he : e ∈ t.entries) : t.get? e.identity = some e ↔ Name.normalize e.identity = e.identity := by
  rw [Table.get?, find?_key_eq_some_iff hids, and_iff_right he, eq_comm]

theorem Sound.sourceClass_ne_nil {ds : List Declaration} (h : Sound ds) {e : Entry} (he : e ∈ ds.map entry) :
    e.sourceClass ≠ [] := by
  obtain ⟨d, hd, rfl⟩ := List.mem_map.mp he
  exact fun hnil => h.wellFormed d hd .emptyIdentity (Or.inr hnil)

theorem Sound.nodup_identity {ds : List Declaration} (h : Sound ds) :
    ((ds.map entry).map Entry.identity).Nodup := by
  rw [map_identity_entry]
  exact h.identities

/-- **Which identities are canonical.** An entry of a loaded table is found by its own identity if and only if that has
neither white space at its ends nor a separator in front, and the parts of its identity give it back unless it is its
simple name behind one separator. Two entries that pass the first pass with one simple name lie in different namespaces
unless one of them is the simple name itself and the other the same name behind one separator. -/
theorem identity_found_iff [Document.DocumentParser] {document : Text} {c : Config}
    (hload : (load document).2 = .ok c) :
    (∀ e ∈ c.table.entries,
      (c.table.get? e.identity = some e ↔
        e.identity.trim = e.identity ∧ e.identity.head? ≠ some Name.separator) ∧
      (Name.join e.sourceNamespace e.sourceClass = e.identity ↔ e.identity ≠ Name.separator :: e.sourceClass)) ∧
    ∀ (declared : List Declaration) (entries : List Entry), checkEntries [] declared = .ok entries →
      ∀ e₁ ∈ entries, ∀ e₂ ∈ entries, e₁ ≠ e₂ → ∀ name, e₁.sourceClass = name → e₂.sourceClass = name →
        (e₁.sourceNamespace = e₂.sourceNamespace ↔
          (e₁.identity = name ∧ e₂.identity = Name.separator :: name) ∨
          (e₁.identity = Name.separator :: name ∧ e₂.identity = name)) := by
  obtain ⟨ds, hsound, -, htable⟩ := exists_of_load hload
  refine ⟨fun e he => ⟨?_, Name.join_parts_eq_self_iff _⟩, fun declared entries hpass e₁ he₁ e₂ he₂ hne name => ?_⟩
  · have hentries : c.table.entries = ds.map entry := by rw [htable]; rfl
    have hids : (c.table.entries.map Entry.identity).Nodup := hentries ▸ hsound.nodup_identity
    have hlast := Name.getLast?_ne_separator (hsound.sourceClass_ne_nil (hentries ▸ he))
    rw [Table.get?_identity_iff hids he, Name.normalize_eq_self_iff]
    simp only [hlast, ne_eq, not_false_eq_true, and_true]
  · obtain ⟨hdeclared, rfl⟩ := sound_of_checkEntries hpass
    exact Name.namespaceOf_eq_iff fun hid => hne (List.inj_on_of_nodup_map hdeclared.nodup_identity he₁ he₂ hid)

/-- An identity in canonical form, one with a separator in front, and two of one simple name in one namespace. -/
theorem identity_found_iff_sample :
    let document := Text.ofString ("[classes.'A\\Foo']\nsource_path = 'a'\ntarget_path = 'b'\n" ++
      "target_namespace = 'B'\ntarget_class = 'Foo'\n[classes.'\\\\A\\Bar']\nsource_path = 'c'\n" ++
      "target_path = 'd'\ntarget_namespace = 'B'\ntarget_class = 'Bar'\n")
    let declared : List Declaration := [
      (.ofString "Foo", ⟨.ofString "a", .ofString "b", .ofString "A", .ofString "Foo"⟩),
      (.ofString "\\\\Foo", ⟨.ofString "c", .ofString "d", .ofString "B", .ofString "Foo"⟩)]
    ∃ c, (load document).2 = .ok c ∧
      (∃ e ∈ c.table.entries, e.identity = .ofString "A\\Foo" ∧ c.table.get? e.identity = some e ∧
        Name.join e.sourceNamespace e.sourceClass = e.identity) ∧
      (∃ e ∈ c.table.entries, e.identity = .ofString "\\A\\Bar" ∧ c.table.get? e.identity ≠ some e ∧
        Name.join e.sourceNamespace e.sourceClass = e.identity) ∧
      ∃ entries, checkEntries [] declared = .ok entries ∧ ∃ e₁ ∈ entries, ∃ e₂ ∈ entries, e₁ ≠ e₂ ∧
        e₁.sourceClass = e₂.sourceClass ∧ e₁.sourceNamespace = e₂.sourceNamespace := by
  intro document declared
  obtain ⟨c, hload, ⟨e, he, hid⟩, x, hx, hxid⟩ := exists_load_of_any document
    (P := fun c => (∃ e ∈ c.table.entries, e.identity = .ofString "A\\Foo") ∧
      ∃ e ∈ c.table.entries, e.identity = .ofString "\\A\\Bar") (by decide +kernel)
  obtain ⟨hall, hpairs⟩ := identity_found_iff hload
  have hfound : c.table.get? e.identity = some e := (hall e he).1.mpr (by rw [hid]; decide +kernel)
  have hjoin : Name.join e.sourceNamespace e.sourceClass = e.identity :=
    (hall e he).2.mpr (by rw [Entry.sourceClass, hid]; decide +kernel)
  have hlost : c.table.get? x.identity ≠ some x := fun h =>
    absurd ((hall x hx).1.mp h).2 (by rw [hxid]; decide +kernel)
  have hxjoin : Name.join x.sourceNamespace x.sourceClass = x.identity :=
    (hall x hx).2.mpr (by rw [Entry.sourceClass, hxid]; decide +kernel)
  have hpass : checkEntries [] declared = .ok (declared.map entry) := by decide +kernel
  have hpair := hpairs declared _ hpass declared[0].entry (by decide +kernel) declared[1].entry (by decide +kernel)
    (by decide +kernel) (.ofString "Foo") (by decide +kernel) (by decide +kernel)
  exact ⟨c, hload, ⟨e, he, hid, hfound, hjoin⟩, ⟨x, hx, hxid, hlost, hxjoin⟩, _, hpass, declared[0].entry,
    by decide +kernel, declared[1].entry, by decide +kernel, by decide +kernel, by decide +kernel,
    hpair.mpr (Or.inl (by decide +kernel))⟩

/-- **An entry can be stored that is not found by its own identity**, nor given back by the parts of it: its key has two
separators in front. Beside an entry with the simple name as its key it is refused, since both have one simple name,
and both lie in the global namespace. -/
theorem identity_not_found :
    let document := Text.ofString ("[classes.'\\\\Foo']\nsource_path = 'a'\ntarget_path = 'b'\n" ++
      "target_namespace = 'New'\ntarget_class = 'Bar'\n")
    let both := document ++ Text.ofString ("[classes.'Foo']\nsource_path = 'c'\ntarget_path = 'd'\n" ++
      "target_namespace = 'New'\ntarget_class = 'Foo'\n")
    let led := Text.ofString "\\Foo"
    let simple := Text.ofString "Foo"
    (∃ c, (load document).2 = .ok c ∧ ∃ e ∈ c.table.entries, c.table.get? e.identity = none ∧
      Name.join e.sourceNamespace e.sourceClass ≠ e.identity) ∧
    (load both).2 = .error (.ambiguousClass simple led simple) ∧ Name.namespaceOf led = Name.namespaceOf simple := by
  intro document both led simple
  exact ⟨exists_load_of_any document (by decide +kernel), by decide +kernel, by decide +kernel⟩

end Polyfill.Mapping
