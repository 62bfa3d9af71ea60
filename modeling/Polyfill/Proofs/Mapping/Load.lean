import Polyfill.Document.Parse
import Polyfill.Mapping.Load
import Polyfill.Proofs.Mapping.Views

/-! # What a mapping document is loaded to

A document is accepted if each of its declarations passes the checks, no two of them have one identity, and no two have
one simple name. The two passes over the declarations look at them one after the other, so each of them stops at the
first declaration behind which the ones before it are no longer in order: the first pass at a declaration that fails a
check or repeats an identity, the second, which the first one has to let through, at one whose simple name is taken.

* `Declaration.Violates`: the checks of one declaration.
* `Sound`: a list of declarations that passes the first pass.
* `Refusal`: the error for a list of declarations that is not accepted.
* `checkEntries_append`, `Views.extend_append`: the passes over declarations that are in order.
* `Table.ofRaw_of_sound`, `Table.ofRaw_of_refusal`: what a list of declarations gives.
* `load_accepts_or_refuses`: what a document gives. -/

namespace Polyfill.Mapping

/-! ### Declarations -/

/-- An entry as it is declared, with its key. -/
abbrev Declaration := Text × RawEntry

/-- The checks of one declaration, in their order. -/
def EntryFault.checks : List EntryFault :=
  [.emptyIdentity, .emptyTargetClass, .qualifiedTargetClass, .emptySourcePath, .emptyTargetPath]

namespace Declaration

/-- The canonical form of the key. -/
def identity (d : Declaration) : Text := Name.normalize d.1

/-- The old simple name. -/
def simpleName (d : Declaration) : Text := Name.shortName d.identity

/-- The entry that a declaration makes, if nothing is wrong with it. -/
def entry (d : Declaration) : Entry where
  identity := d.identity
  targetNamespace := Name.normalize d.2.targetNamespace
  targetClass := Name.normalize d.2.targetClass
  sourcePath := d.2.sourcePath
  targetPath := d.2.targetPath

/-- **The checks of one declaration**: when it has a fault. To be repeated is no fault of one declaration alone. -/
def Violates (d : Declaration) : EntryFault → Prop
  | .emptyIdentity => d.identity = [] ∨ d.simpleName = []
  | .emptyTargetClass => d.entry.targetClass = []
  | .qualifiedTargetClass => Name.separator ∈ d.entry.targetClass
  | .emptySourcePath => d.2.sourcePath = []
  | .emptyTargetPath => d.2.targetPath = []
  | .repeated => False

instance (d : Declaration) : DecidablePred d.Violates
  | .emptyIdentity => inferInstanceAs (Decidable (_ ∨ _))
  | .emptyTargetClass => inferInstanceAs (Decidable (_ = _))
  | .qualifiedTargetClass => inferInstanceAs (Decidable (_ ∈ _))
  | .emptySourcePath => inferInstanceAs (Decidable (_ = _))
  | .emptyTargetPath => inferInstanceAs (Decidable (_ = _))
  | .repeated => inferInstanceAs (Decidable False)

/-- The first check that a declaration fails. -/
def fault? (d : Declaration) : Option EntryFault := EntryFault.checks.find? fun fault => d.Violates fault

theorem fault?_eq_none_iff {d : Declaration} : d.fault? = none ↔ ∀ fault, ¬ d.Violates fault := by
  rw [fault?, List.find?_eq_none]
  constructor
  · intro h fault
    cases fault with
    | repeated => exact id
    | _ => exact of_decide_eq_false (by simpa using h _ (by decide))
  · intro h fault _
    simpa using h fault

theorem ofRaw_eq (d : Declaration) :
    Entry.ofRaw d.1 d.2 = match d.fault? with
      | some fault => .error fault
      | none => .ok d.entry := by
  have hidentity : ((Name.normalize d.1).isEmpty || (Name.shortName (Name.normalize d.1)).isEmpty) = true ↔
      d.Violates .emptyIdentity := by
    rw [Bool.or_eq_true, List.isEmpty_iff, List.isEmpty_iff]
    rfl
  have htarget : (Name.normalize d.2.targetClass).isEmpty = true ↔ d.Violates .emptyTargetClass :=
    List.isEmpty_iff
  have hsimple : (Name.normalize d.2.targetClass).contains Name.separator = true ↔
      d.Violates .qualifiedTargetClass :=
    List.contains_iff_mem
  have hsource : d.2.sourcePath.isEmpty = true ↔ d.Violates .emptySourcePath := List.isEmpty_iff
  have hpath : d.2.targetPath.isEmpty = true ↔ d.Violates .emptyTargetPath := List.isEmpty_iff
  simp only [Entry.ofRaw, hidentity, htarget, hsimple, hsource, hpath, fault?, EntryFault.checks]
  split_ifs with h₁ h₂ h₃ h₄ h₅
  · simp [h₁]
  · simp [h₁, h₂]
  · simp [h₁, h₂, h₃]
  · simp [h₁, h₂, h₃, h₄]
  · simp [h₁, h₂, h₃, h₄, h₅]
  · simp [h₁, h₂, h₃, h₄, h₅, entry, identity]

end Declaration

open Declaration

/-- **Declarations that pass the first pass**: nothing is wrong with any of them, and their identities differ. -/
structure Sound (ds : List Declaration) : Prop where
  wellFormed : ∀ d ∈ ds, ∀ fault, ¬ d.Violates fault
  identities : (ds.map identity).Nodup

/-- **The error for declarations that are not accepted.** -/
inductive Refusal (ds : List Declaration) : Error → Prop
  /-- The first declaration that is not in order fails a check. -/
  | invalid {before after : List Declaration} {d : Declaration} {fault : EntryFault} :
    ds = before ++ d :: after → Sound before → d.fault? = some fault → Refusal ds (.invalidEntry d.1 fault)
  /-- The first declaration that is not in order has the identity of an earlier one. -/
  | repeated {before after : List Declaration} {d : Declaration} :
    ds = before ++ d :: after → Sound before → d.fault? = none → d.identity ∈ before.map identity →
      Refusal ds (.invalidEntry d.1 .repeated)
  /-- All are in order by themselves, and `d` is the first one whose simple name is taken, by `first`. -/
  | ambiguous {before after : List Declaration} {first d : Declaration} :
    Sound ds → ds = before ++ d :: after → (before.map simpleName).Nodup → first ∈ before →
      first.simpleName = d.simpleName → Refusal ds (.ambiguousClass d.simpleName first.identity d.identity)

theorem sound_nil : Sound [] := ⟨by simp, List.nodup_nil⟩

theorem sound_snoc_iff {ds : List Declaration} {d : Declaration} :
    Sound (ds ++ [d]) ↔ Sound ds ∧ d.fault? = none ∧ d.identity ∉ ds.map identity := by
  constructor
  · rintro ⟨hwell, hids⟩
    obtain ⟨hds, hnew⟩ := nodup_map_snoc_iff.mp hids
    exact ⟨⟨fun x hx => hwell x (by simp [hx]), hds⟩, fault?_eq_none_iff.mpr (hwell d (by simp)), hnew⟩
  · rintro ⟨⟨hwell, hids⟩, hd, hnew⟩
    refine ⟨fun x hx => ?_, nodup_map_snoc_iff.mpr ⟨hids, hnew⟩⟩
    rcases List.mem_append.mp hx with hx | hx
    · exact hwell x hx
    · rw [List.mem_singleton.mp hx]
      exact fault?_eq_none_iff.mp hd

theorem find?_key_eq_some_iff {α β : Type} [BEq β] [LawfulBEq β] {key : α → β} {l : List α} (h : (l.map key).Nodup)
    {k : β} {a : α} : l.find? (key · == k) = some a ↔ a ∈ l ∧ key a = k := by
  constructor
  · intro hfind
    exact ⟨List.mem_of_find?_eq_some hfind, by simpa using List.find?_some hfind⟩
  · rintro ⟨ha, rfl⟩
    cases hfind : l.find? (key · == key a) with
    | none => exact absurd (beq_self_eq_true (key a)) (List.find?_eq_none.mp hfind a ha)
    | some x =>
      have hx : key x = key a := by simpa using List.find?_some hfind
      rw [List.inj_on_of_nodup_map h (List.mem_of_find?_eq_some hfind) ha hx]

theorem holds_or_exists_first {α : Type} {P : List α → Prop} (hnil : P []) (l : List α) :
    P l ∨ ∃ before x after, l = before ++ x :: after ∧ P before ∧ ¬ P (before ++ [x]) := by
  induction l using List.reverseRecOn with
  | nil => exact Or.inl hnil
  | append_singleton l x ih =>
    rcases ih with hl | ⟨before, y, after, rfl, hbefore, hlost⟩
    · by_cases hx : P (l ++ [x])
      · exact Or.inl hx
      · exact Or.inr ⟨l, x, [], rfl, hl, hx⟩
    · exact Or.inr ⟨before, y, after ++ [x], by simp, hbefore, hlost⟩

/-- Declarations that are not accepted have an error. -/
theorem accepted_or_refusal (ds : List Declaration) :
    (Sound ds ∧ (ds.map simpleName).Nodup) ∨ ∃ error, Refusal ds error := by
  rcases holds_or_exists_first sound_nil ds with hsound | ⟨before, d, after, hds, hbefore, hlost⟩
  · rcases holds_or_exists_first (P := fun l => (l.map simpleName).Nodup) List.nodup_nil ds with
      hnames | ⟨before, d, after, hds, hbefore, hlost⟩
    · exact Or.inl ⟨hsound, hnames⟩
    · have htaken : d.simpleName ∈ before.map simpleName := by
        by_contra hfree
        exact hlost (nodup_map_snoc_iff.mpr ⟨hbefore, hfree⟩)
      obtain ⟨first, hfirst, hname⟩ := List.mem_map.mp htaken
      exact Or.inr ⟨_, .ambiguous hsound hds hbefore hfirst hname⟩
  · refine Or.inr ?_
    cases hfault : d.fault? with
    | some fault => exact ⟨_, .invalid hds hbefore hfault⟩
    | none =>
      refine ⟨_, .repeated hds hbefore hfault ?_⟩
      by_contra hnew
      exact hlost (sound_snoc_iff.mpr ⟨hbefore, hfault, hnew⟩)

/-! ### The first pass -/

theorem checkEntries_of_fault {accepted : List Entry} {d : Declaration} {fault : EntryFault}
    (h : d.fault? = some fault) (rest : List Declaration) :
    checkEntries accepted (d :: rest) = .error (.invalidEntry d.1 fault) := by
  rw [checkEntries, ofRaw_eq, h]

theorem checkEntries_cons {accepted : List Entry} {d : Declaration} (h : d.fault? = none)
    (rest : List Declaration) :
    checkEntries accepted (d :: rest) =
      if d.identity ∈ accepted.map Entry.identity then .error (.invalidEntry d.1 .repeated)
      else checkEntries (accepted ++ [d.entry]) rest := by
  have htaken : accepted.any (·.identity == d.entry.identity) = true ↔
      d.identity ∈ accepted.map Entry.identity := by
    simp [Declaration.entry]
  rw [checkEntries, ofRaw_eq, h]
  simp only [htaken]

theorem map_identity_entry (ds : List Declaration) : (ds.map entry).map Entry.identity = ds.map identity := by
  rw [List.map_map]
  rfl

/-- **The first pass accepts declarations that are in order** and goes on behind them. -/
theorem checkEntries_append {before : List Declaration} (h : Sound before) (rest : List Declaration) :
    checkEntries [] (before ++ rest) = checkEntries (before.map entry) rest := by
  induction before using List.reverseRecOn generalizing rest with
  | nil => rfl
  | append_singleton before d ih =>
    obtain ⟨hbefore, hd, hnew⟩ := sound_snoc_iff.mp h
    rw [List.append_assoc, ih hbefore, List.singleton_append, checkEntries_cons hd, map_identity_entry, if_neg hnew,
      List.map_append, List.map_singleton]

theorem checkEntries_stops_at_fault {before : List Declaration} {d : Declaration} {fault : EntryFault}
    (h : Sound before) (hd : d.fault? = some fault) (after : List Declaration) :
    checkEntries [] (before ++ d :: after) = .error (.invalidEntry d.1 fault) := by
  rw [checkEntries_append h, checkEntries_of_fault hd]

theorem checkEntries_stops_at_repetition {before : List Declaration} {d : Declaration} (h : Sound before)
    (hd : d.fault? = none) (htaken : d.identity ∈ before.map identity) (after : List Declaration) :
    checkEntries [] (before ++ d :: after) = .error (.invalidEntry d.1 .repeated) := by
  rw [checkEntries_append h, checkEntries_cons hd, map_identity_entry, if_pos htaken]

theorem checkEntries_of_sound {ds : List Declaration} (h : Sound ds) : checkEntries [] ds = .ok (ds.map entry) := by
  have := checkEntries_append h []
  rwa [List.append_nil] at this

/-- The first pass accepts nothing else. -/
theorem sound_of_checkEntries {ds : List Declaration} {es : List Entry} (h : checkEntries [] ds = .ok es) :
    Sound ds ∧ es = ds.map entry := by
  suffices hsound : Sound ds by
    rw [checkEntries_of_sound hsound] at h
    cases h
    exact ⟨hsound, rfl⟩
  rcases accepted_or_refusal ds with ⟨hsound, -⟩ | ⟨error, hrefusal⟩
  · exact hsound
  · cases hrefusal with
    | invalid hds hbefore hfault =>
      rw [hds, checkEntries_stops_at_fault hbefore hfault] at h
      cases h
    | repeated hds hbefore hfault htaken =>
      rw [hds, checkEntries_stops_at_repetition hbefore hfault htaken] at h
      cases h
    | ambiguous hsound => exact hsound

/-! ### The second pass -/

/-- The registration of the entry's namespaces. -/
def Entry.move (e : Entry) : Text × Text := (e.sourceNamespace, e.targetNamespace)

/-- The registration of the entry's simple names. -/
def Entry.rename (e : Entry) : Text × Text := (e.sourceClass, e.targetClass)

/-- The views together with further entries. -/
def Views.add (v : Views) (es : List Entry) : Views where
  seen := v.seen ++ es
  namespaces := v.namespaces.insertAll (es.map Entry.move)
  classes := v.classes.insertAll (es.map Entry.rename)

theorem Views.extend_of_free {v : Views} {e : Entry} (h : e.sourceClass ∉ v.seen.map Entry.sourceClass)
    (rest : List Entry) : (v.extend (e :: rest)).2 = ((v.add [e]).extend rest).2 := by
  have hnone : v.seen.find? (·.sourceClass == e.sourceClass) = none := by
    rw [List.find?_eq_none]
    intro x hx hname
    exact h (List.mem_map.mpr ⟨x, hx, beq_iff_eq.mp hname⟩)
  rw [Views.extend, hnone]
  rfl

theorem Views.extend_of_taken {v : Views} {first e : Entry} (hv : (v.seen.map Entry.sourceClass).Nodup)
    (hfirst : first ∈ v.seen) (hname : first.sourceClass = e.sourceClass) (rest : List Entry) :
    (v.extend (e :: rest)).2 = .error (.ambiguousClass e.sourceClass first.identity e.identity) := by
  have hfind : v.seen.find? (·.sourceClass == e.sourceClass) = some first :=
    (find?_key_eq_some_iff hv).mpr ⟨hfirst, hname⟩
  rw [Views.extend, hfind]

/-- **The second pass takes up entries whose simple names are free** and goes on behind them. -/
theorem Views.extend_append {before : List Entry} {v : Views}
    (h : ((v.seen ++ before).map Entry.sourceClass).Nodup) (rest : List Entry) :
    (v.extend (before ++ rest)).2 = ((v.add before).extend rest).2 := by
  induction before generalizing v with
  | nil => simp [Views.add, NamespaceMoves.insertAll, ClassRenames.insertAll]
  | cons e before ih =>
    have hfree : e.sourceClass ∉ v.seen.map Entry.sourceClass := by
      rw [List.map_append, List.map_cons, List.nodup_append] at h
      exact fun hmem => h.2.2 _ hmem _ (List.mem_cons_self ..) rfl
    have hadd : ((v.add [e]).add before) = v.add (e :: before) := by
      simp [Views.add, NamespaceMoves.insertAll, ClassRenames.insertAll]
    rw [List.cons_append, Views.extend_of_free hfree, ih (by simpa [Views.add] using h), hadd]

/-! ### The table -/

/-- The table of entries that are accepted. -/
def Table.ofEntries (es : List Entry) : Table where
  entries := es
  namespaces := NamespaceMoves.insertAll {} (es.map Entry.move)
  classes := ClassRenames.insertAll {} (es.map Entry.rename)

theorem map_sourceClass_entry (ds : List Declaration) :
    (ds.map entry).map Entry.sourceClass = ds.map simpleName := by
  rw [List.map_map]
  rfl

theorem Views.extend_entries {before : List Declaration} (hnames : (before.map simpleName).Nodup)
    (rest : List Entry) :
    (Views.extend {} (before.map entry ++ rest)).2 = ((Views.add {} (before.map entry)).extend rest).2 := by
  refine Views.extend_append ?_ rest
  rwa [List.nil_append, map_sourceClass_entry]

/-- **Accepted declarations make the table of their entries.** -/
theorem Table.ofRaw_of_sound {ds : List Declaration} (h : Sound ds) (hnames : (ds.map simpleName).Nodup) :
    (Table.ofRaw ds).2 = .ok (.ofEntries (ds.map entry)) := by
  have hviews : (Views.extend {} (ds.map entry)).2 = .ok (Views.add {} (ds.map entry)) := by
    have := Views.extend_entries hnames []
    rwa [List.append_nil] at this
  rw [Table.ofRaw, checkEntries_of_sound h]
  simp only [hviews]
  rfl

/-- **Declarations that are not accepted are refused with their error.** -/
theorem Table.ofRaw_of_refusal {ds : List Declaration} {error : Error} (h : Refusal ds error) :
    (Table.ofRaw ds).2 = .error error := by
  cases h with
  | invalid hds hbefore hfault =>
    subst hds
    rw [Table.ofRaw, checkEntries_stops_at_fault hbefore hfault]
  | repeated hds hbefore hfault htaken =>
    subst hds
    rw [Table.ofRaw, checkEntries_stops_at_repetition hbefore hfault htaken]
  | @ambiguous before after first d hsound hds hnames hfirst hname =>
    have hviews : (Views.extend {} (ds.map entry)).2 =
        .error (.ambiguousClass d.simpleName first.identity d.identity) := by
      have hseen : first.entry ∈ (Views.add {} (before.map entry)).seen := List.mem_map_of_mem hfirst
      rw [hds, List.map_append, List.map_cons, Views.extend_entries hnames]
      rw [← map_sourceClass_entry] at hnames
      exact Views.extend_of_taken (e := d.entry) hnames hseen hname _
    rw [Table.ofRaw, checkEntries_of_sound hsound]
    simp only [hviews]
    rfl

/-! ### The views of a table -/

/-- **The new namespace of `ns`** is that of the first entry that changes it. -/
def FirstMove (es : List Entry) (ns target : Text) : Prop :=
  ∃ before e after, es = before ++ e :: after ∧ e.sourceNamespace = ns ∧ e.targetNamespace = target ∧ target ≠ ns ∧
    ∀ b ∈ before, b.sourceNamespace = ns → b.targetNamespace = ns

theorem Table.target?_ofEntries {es : List Entry} {ns target : Text} :
    (Table.ofEntries es).namespaces.target? ns = some target ↔ FirstMove es ns target := by
  have hrun : (Table.ofEntries es).namespaces.target? ns = es.findSome? (change ns ∘ Entry.move) := by
    rw [Table.ofEntries, NamespaceMoves.target?_insertAll, List.findSome?_map]
    rfl
  rw [hrun, List.findSome?_eq_some_iff, FirstMove]
  simp only [Function.comp_apply, change_eq_some_iff, change_eq_none_iff, Entry.move, Prod.mk.injEq, and_assoc]

theorem Table.keyed_ofEntries (es : List Entry) : (Table.ofEntries es).namespaces.Keyed :=
  NamespaceMoves.keyed_insertAll (m := {}) List.nodup_nil _

theorem Table.get?_ofEntries {es : List Entry} (hnames : (es.map Entry.sourceClass).Nodup) {old new : Text} :
    (Table.ofEntries es).classes.get? old = some new ↔
      ∃ e ∈ es, e.sourceClass = old ∧ e.targetClass = new ∧ new ≠ old := by
  rw [Table.ofEntries, ClassRenames.get?_insertAll (by rwa [List.map_map]), List.mem_map]
  simp only [Entry.rename, Prod.mk.injEq]
  constructor
  · rintro ⟨⟨e, he, hold, hnew⟩, hne⟩
    exact ⟨e, he, hold, hnew, hne⟩
  · rintro ⟨e, he, hold, hnew, hne⟩
    exact ⟨⟨e, he, hold, hnew⟩, hne⟩

/-! ### Documents -/

section Parser

variable [Document.DocumentParser]

theorem load_of_shape {document : Text} {settings : Notice.Settings} {declared : List Declaration}
    (h : (Document.parse document).bind shapeOf = some ⟨settings, some declared⟩) :
    (load document).2 = (Table.ofRaw declared).2.map fun table => { table, settings } := by
  rw [load, h]

theorem load_of_toOption {document : Text} {c : Config} (h : (load document).2.toOption = some c) :
    (load document).2 = .ok c := by
  cases hload : (load document).2 with
  | error e => simp [hload, Except.toOption] at h
  | ok c' => simpa [hload, Except.toOption] using h

theorem exists_load_of_any (document : Text) {P : Config → Prop} [DecidablePred P]
    (h : ((load document).2.toOption.any fun c => decide (P c)) = true) : ∃ c, (load document).2 = .ok c ∧ P c := by
  obtain ⟨c, hc, hP⟩ := (Option.any_eq_true _ _).mp h
  exact ⟨c, load_of_toOption hc, of_decide_eq_true hP⟩

/-- **The table of a document that is accepted** is made of declarations that are in order. -/
theorem exists_of_load {document : Text} {c : Config} (h : (load document).2 = .ok c) :
    ∃ declared, Sound declared ∧ (declared.map simpleName).Nodup ∧ c.table = .ofEntries (declared.map entry) := by
  cases hshape : (Document.parse document).bind shapeOf with
  | none => simp [load, hshape] at h
  | some shape =>
    obtain ⟨settings, classes⟩ := shape
    cases classes with
    | none => simp [load, hshape] at h
    | some declared =>
      rw [load_of_shape hshape] at h
      rcases accepted_or_refusal declared with ⟨hsound, hnames⟩ | ⟨error, hrefusal⟩
      · rw [Table.ofRaw_of_sound hsound hnames] at h
        cases h
        exact ⟨declared, hsound, hnames, rfl⟩
      · rw [Table.ofRaw_of_refusal hrefusal] at h
        cases h

/-- **What a mapping document is loaded to.** A document of the right shape is accepted if and only if its declarations
are in order, with simple names of their own; otherwise it is refused with the error of its declarations. The table
of an accepted document holds the declared entries in their order. Its moves send a namespace to the target of the
first entry that changes it, and its renames send a simple name to the new name of its one entry, if that is another
one. -/
theorem load_accepts_or_refuses {document : Text} {settings : Notice.Settings} {declared : List Declaration}
    (hshape : (Document.parse document).bind shapeOf = some ⟨settings, some declared⟩) :
    ((∃ c, (load document).2 = .ok c) ↔ Sound declared ∧ (declared.map simpleName).Nodup) ∧
    (∀ error, (load document).2 = .error error ↔ Refusal declared error) ∧
    ∀ c, (load document).2 = .ok c →
      c.settings = settings ∧ c.table.entries = declared.map entry ∧ c.table.namespaces.Keyed ∧
      (∀ ns target, c.table.namespaces.target? ns = some target ↔ FirstMove c.table.entries ns target) ∧
      ∀ old new, c.table.classes.get? old = some new ↔ ∃ e ∈ c.table.entries, e.sourceClass = old ∧
        (∀ x ∈ c.table.entries, x.sourceClass = old → x = e) ∧ e.targetClass = new ∧ new ≠ old := by
  rw [load_of_shape hshape]
  rcases accepted_or_refusal declared with ⟨hsound, hnames⟩ | ⟨error, hrefusal⟩
  · have hok := Table.ofRaw_of_sound hsound hnames
    rw [hok]
    refine ⟨iff_of_true ⟨_, rfl⟩ ⟨hsound, hnames⟩, fun error => iff_of_false (by simp [Except.map]) fun h => ?_, ?_⟩
    · rw [Table.ofRaw_of_refusal h] at hok
      cases hok
    · rintro c ⟨⟩
      rw [← map_sourceClass_entry] at hnames
      refine ⟨rfl, rfl, Table.keyed_ofEntries _, fun ns target => Table.target?_ofEntries, fun old new => ?_⟩
      rw [Table.get?_ofEntries hnames]
      refine exists_congr fun e => and_congr_right fun he => and_congr_right fun hold => ?_
      exact (and_iff_right fun x hx hx' => List.inj_on_of_nodup_map hnames hx he (hx'.trans hold.symm)).symm
  · have herror := Table.ofRaw_of_refusal hrefusal
    rw [herror]
    refine ⟨iff_of_false (by simp [Except.map]) fun h => ?_, fun error' => ⟨?_, fun h => ?_⟩, by simp [Except.map]⟩
    · rw [Table.ofRaw_of_sound h.1 h.2] at herror
      cases herror
    · rintro ⟨⟩
      exact hrefusal
    · rw [Table.ofRaw_of_refusal h] at herror
      cases herror
      rfl

end Parser

/-- Three entries of one namespace: one stays there, and the others have different targets. -/
theorem load_accepts_or_refuses_sample :
    let document := Text.ofString ("[classes.'Old\\Zero']\nsource_path = 'z'\ntarget_path = 'z'\n" ++
      "target_namespace = 'Old'\ntarget_class = 'Zero'\n[classes.'\\Old\\One']\nsource_path = 'a'\n" ++
      "target_path = 'b'\ntarget_namespace = '\\First\\'\ntarget_class = 'Uno'\n[classes.'Old\\Two']\n" ++
      "source_path = 'c'\ntarget_path = 'd'\ntarget_namespace = 'Second'\ntarget_class = 'Two'\n")
    let declared : List Declaration := [
      (.ofString "Old\\Zero", ⟨.ofString "z", .ofString "z", .ofString "Old", .ofString "Zero"⟩),
      (.ofString "\\Old\\One", ⟨.ofString "a", .ofString "b", .ofString "\\First\\", .ofString "Uno"⟩),
      (.ofString "Old\\Two", ⟨.ofString "c", .ofString "d", .ofString "Second", .ofString "Two"⟩)]
    (∃ settings, (Document.parse document).bind shapeOf = some ⟨settings, some declared⟩) ∧
      ∃ c, (load document).2 = .ok c ∧ c.table.entries = declared.map entry ∧
        c.table.namespaces.target? (.ofString "Old") = some (.ofString "First") ∧
        c.table.classes.get? (.ofString "One") = some (.ofString "Uno") := by
  intro document declared
  have hshape : (((Document.parse document).bind shapeOf).any fun s => s.classes == some declared) = true := by
    decide +kernel
  obtain ⟨⟨settings, classes⟩, hshape, hclasses⟩ := (Option.any_eq_true _ _).mp hshape
  cases beq_iff_eq.mp hclasses
  obtain ⟨haccept, -, htable⟩ := load_accepts_or_refuses hshape
  have hwell : ∀ d ∈ declared, d.fault? = none := by decide +kernel
  obtain ⟨c, hc⟩ := haccept.mpr ⟨⟨fun d hd => fault?_eq_none_iff.mp (hwell d hd), by decide +kernel⟩, by decide +kernel⟩
  obtain ⟨-, hentries, -, hmoves, hrenames⟩ := htable c hc
  refine ⟨⟨settings, hshape⟩, c, hc, hentries, (hmoves _ _).mpr ?_, (hrenames _ _).mpr ?_⟩ <;> rw [hentries]
  · exact ⟨[declared[0].entry], declared[1].entry, [declared[2].entry], by decide +kernel⟩
  · exact ⟨declared[1].entry, by decide +kernel⟩

end Polyfill.Mapping
