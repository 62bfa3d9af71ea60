import Polyfill.Mapping.Resolve
import Polyfill.Proofs.Mapping.Load

/-! # Resolving a name in the files of different entries

A declared name is resolved by the entry of its file, if it is the entry's own, and by the views of the table otherwise.
For classes this makes no difference: a simple name has one entry, and the view holds what that entry says. For
namespaces it can. The view does not hold a namespace that stays where it is, so a lookup goes on to the namespaces
above, and if one of them moves it takes the lower one along. The files of the entries that stay there do not go with
it.

* `resolveClass_eq_lookup`: classes are resolved alike in all files.
* `resolveNamespace_ne_some_self`, `resolveClass_ne_some_self`: a new name is another name.
* `Carries`: the entry whose namespace is the nearest above that moves.
* `resolveNamespace_own_iff`: when a namespace of the table is resolved alike in all files, and what happens otherwise.
* `staying_namespace_is_carried`: a namespace that stays can be moved in the files of other entries. -/

namespace Polyfill.Mapping

variable {es : List Entry}

/-! ### Classes -/

/-- What the entry of a simple name says is what the view holds. -/
theorem Table.resolveClass_ofEntries (hnames : (es.map Entry.sourceClass).Nodup) {e : Entry} (he : e ∈ es)
    (declared : Text) :
    (Table.ofEntries es).resolveClass e declared = (Table.ofEntries es).classes.get? declared := by
  rw [Table.resolveClass]
  split
  · next hown =>
    split
    · next hsame =>
      cases hget : (Table.ofEntries es).classes.get? declared with
      | none => rfl
      | some new =>
        obtain ⟨x, hx, hold, hnew, hne⟩ := (Table.get?_ofEntries hnames).mp hget
        rw [List.inj_on_of_nodup_map hnames hx he (hold.trans hown)] at hnew
        exact absurd (hnew.symm.trans hsame.symm) hne
    · next hne => exact ((Table.get?_ofEntries hnames).mpr ⟨e, he, hown.symm, rfl, Ne.symm hne⟩).symm
  · rfl

/-- **Classes are resolved alike in the files of all entries**: as the renames of the table say. -/
theorem resolveClass_eq_lookup [Document.DocumentParser] {document : Text} {c : Config}
    (hload : (load document).2 = .ok c) {e e' : Entry} (he : e ∈ c.table.entries) (he' : e' ∈ c.table.entries)
    (declared : Text) :
    c.table.resolveClass e declared = c.table.classes.get? declared ∧
      c.table.resolveClass e declared = c.table.resolveClass e' declared := by
  obtain ⟨ds, -, hnames, htable⟩ := exists_of_load hload
  rw [← map_sourceClass_entry] at hnames
  rw [htable] at he he' ⊢
  have h := Table.resolveClass_ofEntries hnames he declared
  have h' := Table.resolveClass_ofEntries hnames he' declared
  exact ⟨h, h.trans h'.symm⟩

/-- The class of one entry is renamed in the files of another. -/
theorem resolveClass_eq_lookup_sample :
    let document := Text.ofString ("[classes.'A\\One']\nsource_path = 'a'\ntarget_path = 'b'\n" ++
      "target_namespace = 'A'\ntarget_class = 'Uno'\n[classes.'B\\Two']\nsource_path = 'c'\n" ++
      "target_path = 'd'\ntarget_namespace = 'B'\ntarget_class = 'Two'\n")
    ∃ c, (load document).2 = .ok c ∧ ∃ e ∈ c.table.entries, ∃ e' ∈ c.table.entries,
      e.sourceClass = .ofString "One" ∧ e'.sourceClass = .ofString "Two" ∧
      c.table.classes.get? (.ofString "One") = some (.ofString "Uno") ∧
      c.table.resolveClass e (.ofString "One") = c.table.classes.get? (.ofString "One") ∧
      c.table.resolveClass e (.ofString "One") = c.table.resolveClass e' (.ofString "One") := by
  intro document
  obtain ⟨c, hload, e, he, e', he', hone, htwo, hget⟩ := exists_load_of_any document
    (P := fun c => ∃ e ∈ c.table.entries, ∃ e' ∈ c.table.entries, e.sourceClass = .ofString "One" ∧
      e'.sourceClass = .ofString "Two" ∧ c.table.classes.get? (.ofString "One") = some (.ofString "Uno"))
    (by decide +kernel)
  exact ⟨c, hload, e, he, e', he', hone, htwo, hget, resolveClass_eq_lookup hload he he' _⟩

/-! ### Names that change -/

theorem Table.pairs_ofEntries_ne : ∀ p ∈ (Table.ofEntries es).namespaces.pairs, p.1 ≠ p.2 := by
  rintro ⟨old, new⟩ hp
  rw [(Table.keyed_ofEntries es).mem_iff, Table.target?_ofEntries] at hp
  obtain ⟨before, e, after, -, -, -, hne, -⟩ := hp
  exact hne.symm

/-- **A namespace never gets the name back that it is looked up by.** -/
theorem resolveNamespace_ne_some_self [Document.DocumentParser] {document : Text} {c : Config}
    (hload : (load document).2 = .ok c) (e : Entry) (declared : Text) :
    c.table.resolveNamespace e declared ≠ some (Name.normalize declared) := by
  obtain ⟨ds, -, -, htable⟩ := exists_of_load hload
  rw [htable, Table.resolveNamespace]
  split
  · split
    · exact Option.some_ne_none _ ∘ Eq.symm
    · next hne => exact fun h => hne (Option.some.inj h).symm
  · exact NamespaceMoves.move?_ne_some_self (Table.keyed_ofEntries _) Table.pairs_ofEntries_ne _

/-- **A class never gets its old name back.** -/
theorem resolveClass_ne_some_self [Document.DocumentParser] {document : Text} {c : Config}
    (hload : (load document).2 = .ok c) (e : Entry) (declared : Text) :
    c.table.resolveClass e declared ≠ some declared := by
  obtain ⟨ds, -, hnames, htable⟩ := exists_of_load hload
  rw [← map_sourceClass_entry] at hnames
  rw [htable, Table.resolveClass]
  split
  · split
    · exact Option.some_ne_none _ ∘ Eq.symm
    · next hne => exact fun h => hne (Option.some.inj h).symm
  · intro h
    obtain ⟨x, -, -, -, hne⟩ := (Table.get?_ofEntries hnames).mp h
    exact hne rfl

/-! ### Namespaces that move -/

/-- The namespace of the entry changes. -/
def Entry.Moves (e : Entry) : Prop := e.targetNamespace ≠ e.sourceNamespace

instance (e : Entry) : Decidable e.Moves := inferInstanceAs (Decidable (_ ≠ _))

/-- The new name that an entry gives to its own namespace. -/
def Entry.newNamespace? (e : Entry) : Option Text :=
  if e.sourceNamespace = e.targetNamespace then none else some e.targetNamespace

/-- The entries agree on the target of each namespace. -/
def Agree (es : List Entry) : Prop :=
  ∀ a ∈ es, ∀ b ∈ es, a.sourceNamespace = b.sourceNamespace → a.targetNamespace = b.targetNamespace

instance : Decidable (Agree es) := inferInstanceAs (Decidable (∀ a ∈ es, ∀ b ∈ es, _ → _))

/-- **The nearest namespace above that moves**: the namespace of `g` moves, it contains `ns` with `rest` below it, and
no longer one does both. -/
structure Carries (es : List Entry) (ns : Text) (g : Entry) (rest : Text) : Prop where
  mem : g ∈ es
  moves : g.Moves
  above : Name.within? ns g.sourceNamespace = some rest
  longest : ∀ x ∈ es, x.Moves → ∀ r, Name.within? ns x.sourceNamespace = some r →
    x.sourceNamespace.length ≤ g.sourceNamespace.length

/-- If the entries agree, the view holds the namespaces that move, with their targets. -/
theorem mem_pairs_ofEntries (h : Agree es) {old new : Text} :
    (old, new) ∈ (Table.ofEntries es).namespaces.pairs ↔
      ∃ g ∈ es, g.Moves ∧ g.sourceNamespace = old ∧ g.targetNamespace = new := by
  rw [(Table.keyed_ofEntries es).mem_iff, Table.target?_ofEntries]
  constructor
  · rintro ⟨before, g, after, rfl, rfl, rfl, hne, -⟩
    exact ⟨g, by simp, hne, rfl, rfl⟩
  · rintro ⟨g, hg, hmoves, rfl, rfl⟩
    rcases holds_or_exists_first (P := fun l => ∀ b ∈ l, b.sourceNamespace = g.sourceNamespace →
      b.targetNamespace = g.sourceNamespace) (by simp) es with hnone | ⟨before, x, after, rfl, hbefore, hlost⟩
    · exact absurd (hnone g hg rfl) hmoves
    · -- the first entry that changes the namespace changes it as `g` does
      have hx : x.sourceNamespace = g.sourceNamespace ∧ x.targetNamespace ≠ g.sourceNamespace := by
        by_contra hx
        refine hlost fun b hb hsource => ?_
        rcases List.mem_append.mp hb with hb | hb
        · exact hbefore b hb hsource
        · rw [List.mem_singleton.mp hb] at hsource ⊢
          by_contra htarget
          exact hx ⟨hsource, htarget⟩
      exact ⟨before, x, after, rfl, hx.1, h x (by simp) g hg hx.1, hmoves, hbefore⟩

theorem move?_ofEntries_eq_none_iff (h : Agree es) {ns : Text} :
    (Table.ofEntries es).namespaces.move? ns = none ↔
      ∀ g ∈ es, g.Moves → Name.within? ns g.sourceNamespace = none := by
  rw [NamespaceMoves.move?_eq_none_iff]
  constructor
  · exact fun hnone g hg hmoves => hnone (_, _) ((mem_pairs_ofEntries h).mpr ⟨g, hg, hmoves, rfl, rfl⟩)
  · rintro hnone ⟨old, new⟩ hp
    obtain ⟨g, hg, hmoves, rfl, rfl⟩ := (mem_pairs_ofEntries h).mp hp
    exact hnone g hg hmoves

theorem move?_ofEntries_eq_some_iff (h : Agree es) {ns target : Text} :
    (Table.ofEntries es).namespaces.move? ns = some target ↔
      ∃ g rest, Carries es ns g rest ∧ target = Match.result ⟨g.sourceNamespace, g.targetNamespace, rest⟩ := by
  rw [NamespaceMoves.move?_eq_some_iff (Table.keyed_ofEntries es)]
  constructor
  · rintro ⟨old, new, rest, hp, hw, hmax, rfl⟩
    obtain ⟨g, hg, hmoves, rfl, rfl⟩ := (mem_pairs_ofEntries h).mp hp
    refine ⟨g, rest, ⟨hg, hmoves, hw, fun x hx hxm r hr => ?_⟩, rfl⟩
    exact hmax (_, _) ((mem_pairs_ofEntries h).mpr ⟨x, hx, hxm, rfl, rfl⟩) r hr
  · rintro ⟨g, rest, hg, rfl⟩
    refine ⟨_, _, rest, (mem_pairs_ofEntries h).mpr ⟨g, hg.mem, hg.moves, rfl, rfl⟩, hg.above, ?_, rfl⟩
    rintro ⟨old, new⟩ hp r hr
    obtain ⟨x, hx, hxm, rfl, rfl⟩ := (mem_pairs_ofEntries h).mp hp
    exact hg.longest x hx hxm r hr

theorem move?_ofEntries_of_moves (h : Agree es) {f : Entry} (hf : f ∈ es) (hmoves : f.Moves) :
    (Table.ofEntries es).namespaces.move? f.sourceNamespace = some f.targetNamespace :=
  NamespaceMoves.move?_of_target? (Table.keyed_ofEntries es)
    ((Table.keyed_ofEntries es).mem_iff.mp ((mem_pairs_ofEntries h).mpr ⟨f, hf, hmoves, rfl, rfl⟩))

/-! ### Namespaces in the files of different entries -/

section

variable {f e : Entry} {declared : Text}

theorem Table.resolveNamespace_of_same (h : Agree es) (hf : f ∈ es) (he : e ∈ es)
    (hd : Name.normalize declared = f.sourceNamespace) (hsame : e.sourceNamespace = f.sourceNamespace) :
    (Table.ofEntries es).resolveNamespace e declared = f.newNamespace? := by
  simp only [Table.resolveNamespace, hd, hsame, if_true, h e he f hf hsame, Entry.newNamespace?]

theorem Table.resolveNamespace_of_other (hd : Name.normalize declared = f.sourceNamespace)
    (hother : e.sourceNamespace ≠ f.sourceNamespace) :
    (Table.ofEntries es).resolveNamespace e declared = (Table.ofEntries es).namespaces.move? f.sourceNamespace := by
  simp only [Table.resolveNamespace, hd, if_neg (Ne.symm hother)]

theorem move?_eq_newNamespace?_iff (h : Agree es) (hf : f ∈ es) :
    (Table.ofEntries es).namespaces.move? f.sourceNamespace = f.newNamespace? ↔
      f.Moves ∨ ∀ g ∈ es, g.Moves → Name.within? f.sourceNamespace g.sourceNamespace = none := by
  by_cases hmoves : f.Moves
  · refine iff_of_true ?_ (Or.inl hmoves)
    rw [move?_ofEntries_of_moves h hf hmoves, Entry.newNamespace?, if_neg (Ne.symm hmoves)]
  · rw [Entry.newNamespace?, if_pos (not_not.mp hmoves).symm, move?_ofEntries_eq_none_iff h, or_iff_right hmoves]

end

/-- **When a namespace of the table is resolved alike in the files of all entries.** Let the entries of a loaded table
agree on the target of each namespace. A name of the namespace of `f` then goes to the target of `f` in the files of
all entries if and only if that namespace moves or no namespace above it does. In the files of the entries in that
namespace this is always so. In the files of all others it is taken along by the nearest namespace that moves, and stays
if there is none. -/
theorem resolveNamespace_own_iff [Document.DocumentParser] {document : Text} {c : Config}
    (hload : (load document).2 = .ok c) (hagree : Agree c.table.entries) {f : Entry} (hf : f ∈ c.table.entries)
    {declared : Text} (hd : Name.normalize declared = f.sourceNamespace) :
    ((∀ e₁ ∈ c.table.entries, ∀ e₂ ∈ c.table.entries,
        c.table.resolveNamespace e₁ declared = c.table.resolveNamespace e₂ declared ∧
          c.table.resolveNamespace e₁ declared = f.newNamespace?) ↔
      f.Moves ∨ ∀ g ∈ c.table.entries, g.Moves → Name.within? f.sourceNamespace g.sourceNamespace = none) ∧
    (∀ e ∈ c.table.entries, e.sourceNamespace = f.sourceNamespace →
      c.table.resolveNamespace e declared = f.newNamespace?) ∧
    ∀ e ∈ c.table.entries, e.sourceNamespace ≠ f.sourceNamespace →
      ∀ target, c.table.resolveNamespace e declared = some target ↔
        ∃ g rest, Carries c.table.entries f.sourceNamespace g rest ∧
          target = Match.result ⟨g.sourceNamespace, g.targetNamespace, rest⟩ := by
  obtain ⟨ds, -, -, htable⟩ := exists_of_load hload
  generalize ds.map Declaration.entry = es at htable
  rw [htable] at hagree hf ⊢
  change Agree es at hagree
  change f ∈ es at hf
  refine ⟨⟨fun hall => ?_, fun hcase => ?_⟩, fun e he hsame =>
    Table.resolveNamespace_of_same hagree hf he hd hsame, fun e _ hother target => ?_⟩
  · by_cases hmoves : f.Moves
    · exact Or.inl hmoves
    · refine Or.inr fun g hg hgmoves => ?_
      have hother : g.sourceNamespace ≠ f.sourceNamespace := by
        intro hsame
        rw [Entry.Moves, hagree g hg f hf hsame, hsame] at hgmoves
        exact hmoves hgmoves
      have hg' := (hall g hg g hg).2
      rw [Table.resolveNamespace_of_other hd hother, move?_eq_newNamespace?_iff hagree hf] at hg'
      exact hg'.resolve_left hmoves g hg hgmoves
  · have hown : ∀ e ∈ es, (Table.ofEntries es).resolveNamespace e declared = f.newNamespace? := by
      intro e he
      by_cases hsame : e.sourceNamespace = f.sourceNamespace
      · exact Table.resolveNamespace_of_same hagree hf he hd hsame
      · rw [Table.resolveNamespace_of_other hd hsame]
        exact (move?_eq_newNamespace?_iff hagree hf).mpr hcase
    exact fun e₁ he₁ e₂ he₂ => ⟨(hown e₁ he₁).trans (hown e₂ he₂).symm, hown e₁ he₁⟩
  · rw [Table.resolveNamespace_of_other hd hother, move?_ofEntries_eq_some_iff hagree]
    rfl

/-- A namespace that moves, and one below it that stays. -/
theorem resolveNamespace_own_iff_sample :
    let document := Text.ofString ("[classes.'A\\X']\nsource_path = 'x'\ntarget_path = 'x'\n" ++
      "target_namespace = 'B'\ntarget_class = 'X'\n[classes.'A\\Sub\\Y']\nsource_path = 'y'\n" ++
      "target_path = 'y'\ntarget_namespace = 'A\\Sub'\ntarget_class = 'Y'\n")
    ∃ c, (load document).2 = .ok c ∧ Agree c.table.entries ∧ ∃ x ∈ c.table.entries, ∃ y ∈ c.table.entries,
      Name.normalize (.ofString "\\A") = x.sourceNamespace ∧ x.Moves ∧
      Name.normalize (.ofString "A\\Sub") = y.sourceNamespace ∧ ¬ y.Moves ∧
      (∀ e₁ ∈ c.table.entries, ∀ e₂ ∈ c.table.entries,
        c.table.resolveNamespace e₁ (.ofString "\\A") = c.table.resolveNamespace e₂ (.ofString "\\A") ∧
          c.table.resolveNamespace e₁ (.ofString "\\A") = x.newNamespace?) ∧
      ∃ g rest, Carries c.table.entries y.sourceNamespace g rest ∧
        Text.ofString "B\\Sub" = Match.result ⟨g.sourceNamespace, g.targetNamespace, rest⟩ := by
  intro document
  obtain ⟨c, hload, hagree, x, hx, y, hy, hxd, hxm, hyd, hym, hother, hcarried⟩ :=
    exists_load_of_any document
      (P := fun c => Agree c.table.entries ∧ ∃ x ∈ c.table.entries, ∃ y ∈ c.table.entries,
        Name.normalize (.ofString "\\A") = x.sourceNamespace ∧ x.Moves ∧
        Name.normalize (.ofString "A\\Sub") = y.sourceNamespace ∧ ¬ y.Moves ∧
        x.sourceNamespace ≠ y.sourceNamespace ∧
        c.table.resolveNamespace x (.ofString "A\\Sub") = some (.ofString "B\\Sub"))
      (by decide +kernel)
  exact ⟨c, hload, hagree, x, hx, y, hy, hxd, hxm, hyd, hym,
    (resolveNamespace_own_iff hload hagree hx hxd).1.mpr (Or.inl hxm),
    ((resolveNamespace_own_iff hload hagree hy hyd).2.2 x hx hother _).mp hcarried⟩

/-- **A namespace that stays can be moved in the files of other entries**: here `A\Sub` stays and `A` moves. Nor does a
name go to its own target that is not in canonical form, as the namespace `C\` of the third entry. -/
theorem staying_namespace_is_carried :
    let document := Text.ofString ("[classes.'A\\X']\nsource_path = 'x'\ntarget_path = 'x'\n" ++
      "target_namespace = 'B'\ntarget_class = 'X'\n[classes.'A\\Sub\\Y']\nsource_path = 'y'\n" ++
      "target_path = 'y'\ntarget_namespace = 'A\\Sub'\ntarget_class = 'Y'\n[classes.'C\\\\Z']\n" ++
      "source_path = 'z'\ntarget_path = 'z'\ntarget_namespace = 'D'\ntarget_class = 'Z'\n")
    ∃ c, (load document).2 = .ok c ∧ Agree c.table.entries ∧
      ∃ x ∈ c.table.entries, ∃ y ∈ c.table.entries, ∃ z ∈ c.table.entries,
        c.table.resolveNamespace x y.sourceNamespace = some (.ofString "B\\Sub") ∧
        c.table.resolveNamespace y y.sourceNamespace = none ∧ y.newNamespace? = none ∧
        c.table.resolveNamespace z z.sourceNamespace = none ∧ z.newNamespace? = some (.ofString "D") := by
  intro document
  exact exists_load_of_any document (by decide +kernel)

end Polyfill.Mapping
