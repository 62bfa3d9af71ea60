import Polyfill.Proofs.Edit.Apply
import Polyfill.Proofs.Text.Words

/-! # Words in an edited text

What edits leave of a text keeps its order, so a word of the edited text that holds no byte of a replacement is made of
bytes of the source. They stand side by side in the source too, as long as no edit starts or ends inside an identifier:
a deletion then has no identifier both in front of it and behind it, and a row of deletions has none either.

* `place`: the offset of the edited text that belongs to an offset of the source.
* `Copied`, `Inserted`: where a byte of the edited text comes from.
* `Bounded`: an edit that starts and ends at the border of an identifier.
* `copied_of_wordAt`: a word without inserted bytes stands in the source, where no edit touches it.
* `inserted_of_wordAt`: a word with inserted bytes is inserted as a whole. -/

namespace Polyfill

open Text Name

namespace Edit

variable {source : Text} {es : List Edit}

/-! ### Where the bytes of the edited text come from -/

/-- The place of the offset `p` in the edited text: the length of what the source in front of it has turned into. -/
def place (source : Text) (es : List Edit) (p : ℕ) : ℕ := ((List.range p).flatMap (atByte source es)).length

/-- The byte at the offset `o` of the edited text is the byte at the offset `p` of the source. -/
structure Copied (source : Text) (es : List Edit) (p o : ℕ) : Prop where
  lt : p < source.length
  free : ∀ e ∈ es, ¬ e.touches p = true
  offset : place source es p = o

/-- The byte at the offset `o` of the edited text belongs to the replacement of the edit. -/
def Inserted (source : Text) (es : List Edit) (e : Edit) (o : ℕ) : Prop :=
  place source es e.start ≤ o ∧ o < place source es e.start + e.replacement.length

theorem Inserted.replacement_ne_nil {e : Edit} {o : ℕ} (h : Inserted source es e o) : e.replacement ≠ [] := by
  obtain ⟨h₁, h₂⟩ := h
  exact List.ne_nil_of_length_pos (by omega)

theorem place_succ (p : ℕ) : place source es (p + 1) = place source es p + (atByte source es p).length := by
  rw [place, List.range_succ, List.flatMap_append, List.length_append, List.flatMap_singleton, place]

theorem place_mono {p q : ℕ} (h : p ≤ q) : place source es p ≤ place source es q := by
  induction q, h using Nat.le_induction with
  | base => exact le_rfl
  | succ q _ ih => rw [place_succ]; omega

theorem place_length : place source es source.length = (edited source es).length := rfl

theorem getElem?_edited {p k : ℕ} (hp : p < source.length) (hk : k < (atByte source es p).length) :
    (edited source es)[place source es p + k]? = (atByte source es p)[k]? := by
  have hsplit : List.range source.length =
      List.range p ++ p :: List.range' (p + 1) (source.length - (p + 1)) := by
    rw [List.range_eq_range', List.range_eq_range', ← List.range'_succ, ← Nat.sub_zero source.length,
      range'_split (Nat.zero_le p) hp.le]
    congr 2
    omega
  rw [edited, hsplit, List.flatMap_append, List.flatMap_cons, place, List.getElem?_append_right (by omega),
    Nat.add_sub_cancel_left, List.getElem?_append_left hk]

theorem exists_place {n o : ℕ} (h : o < place source es n) :
    ∃ p < n, place source es p ≤ o ∧ o < place source es (p + 1) := by
  induction n with
  | zero => exact absurd h (Nat.not_lt_zero o)
  | succ n ih =>
    rcases Nat.lt_or_ge o (place source es n) with hlt | hge
    · obtain ⟨p, hp, hrest⟩ := ih hlt
      exact ⟨p, hp.trans n.lt_succ_self, hrest⟩
    · exact ⟨n, n.lt_succ_self, hge, h⟩

section Apart

variable (ha : es.Pairwise Apart)
include ha

/-- **A byte of the edited text is copied from the source or inserted by an edit.** -/
theorem copied_or_inserted {o : ℕ} (h : o < (edited source es).length) :
    (∃ p, Copied source es p o) ∨ ∃ e ∈ es, Inserted source es e o := by
  obtain ⟨p, hp, hle, hlt⟩ := exists_place (place_length ▸ h)
  rw [place_succ] at hlt
  by_cases htouch : ∃ e ∈ es, e.touches p = true
  · obtain ⟨e, he, ht⟩ := htouch
    rw [atByte_of_touches ha he ht] at hlt
    split at hlt
    · next hstart => exact Or.inr ⟨e, he, hstart ▸ hle, hstart ▸ hlt⟩
    · rw [List.length_nil] at hlt
      omega
  · push Not at htouch
    rw [atByte_of_not_touched htouch, List.getElem?_eq_getElem hp] at hlt
    exact Or.inl ⟨p, hp, htouch, by simp at hlt; omega⟩

end Apart

section Copied

variable {p q o : ℕ}

theorem Copied.atByte (h : Copied source es p o) : ∃ b, source[p]? = some b ∧ atByte source es p = [b] := by
  refine ⟨_, List.getElem?_eq_getElem h.lt, ?_⟩
  rw [atByte_of_not_touched h.free, List.getElem?_eq_getElem h.lt, Option.toList_some]

theorem Copied.getElem? (h : Copied source es p o) : (edited source es)[o]? = source[p]? := by
  obtain ⟨b, hb, hbyte⟩ := h.atByte
  have hget := getElem?_edited (k := 0) h.lt (by rw [hbyte]; simp)
  rwa [h.offset, Nat.add_zero, hbyte, List.getElem?_cons_zero, ← hb] at hget

theorem Copied.place_succ (h : Copied source es p o) : Edit.place source es (p + 1) = o + 1 := by
  obtain ⟨b, -, hbyte⟩ := h.atByte
  rw [Edit.place_succ, h.offset, hbyte, List.length_singleton]

theorem Copied.cut (h : Copied source es p o) : ∀ e ∈ es, e.start < p → e.stop ≤ p := by
  intro e he hlt
  have hfree := h.free e he
  rw [touches_iff] at hfree
  omega

theorem Copied.start_eq (h : Copied source es p o) : ∀ e ∈ es, e.touches (p + 1) = true → e.start = p + 1 := by
  intro e he ht
  have hfree := h.free e he
  rw [touches_iff] at ht hfree
  omega

theorem Copied.identAt_eq (h : Copied source es p o) : (edited source es).identAt o = source.identAt p :=
  Bool.eq_iff_iff.mpr (by rw [identAt_iff, identAt_iff, h.getElem?])

end Copied

/-! ### Edits at the borders of identifiers -/

/-- **The edit starts and ends at the border of an identifier**, and if it deletes, no identifier ends in front of it
unless one ends at its end. -/
structure Bounded (source : Text) (e : Edit) : Prop where
  opens : Border source e.start
  closes : Border source e.stop
  inner : e.replacement = [] → source.identBefore e.start = true → source.identBefore e.stop = true

section Bounded

variable (hb : ∀ e ∈ es, e.Bounded source)
include hb

/-- No identifier ends in front of a copied byte of an identifier if none does in the edited text. -/
theorem Copied.identBefore_eq_false {p o : ℕ} (h : Copied source es p o) (hident : source.identAt p = true)
    (hopens : (edited source es).identBefore o = false) : source.identBefore p = false := by
  rw [Bool.eq_false_iff]
  intro hbefore
  cases p with
  | zero => cases hbefore
  | succ m =>
    have hm : m < source.length := Nat.lt_of_succ_lt h.lt
    by_cases htouch : ∃ e ∈ es, e.touches m = true
    · -- an edit ends in front of the byte
      obtain ⟨e, he, ht⟩ := htouch
      have hfree := h.free e he
      have hstop : e.stop = m + 1 := by
        rw [touches_iff] at ht hfree
        omega
      rw [← hstop] at hbefore hident
      rw [(hb e he).closes hbefore] at hident
      cases hident
    · push Not at htouch
      have hcopied : Copied source es m (place source es m) := ⟨hm, htouch, rfl⟩
      obtain rfl : place source es m + 1 = o := by rw [← hcopied.place_succ, h.offset]
      have hlt : place source es m < (edited source es).length := by
        rw [← place_length, ← Nat.add_one_le_iff, ← hcopied.place_succ]
        exact place_mono hm
      rw [identBefore_succ hlt, hcopied.identAt_eq, ← identBefore_succ hm, hbefore] at hopens
      cases hopens

/-- No identifier goes on behind a copied byte of an identifier if none does in the edited text. -/
theorem Copied.identAt_eq_false {p o : ℕ} (h : Copied source es p o) (hident : source.identAt p = true)
    (hcloses : (edited source es).identAt (o + 1) = false) : source.identAt (p + 1) = false := by
  by_cases htouch : ∃ e ∈ es, e.touches (p + 1) = true
  · -- an edit starts behind the byte
    obtain ⟨e, he, ht⟩ := htouch
    have hstart : e.start = p + 1 := h.start_eq e he ht
    rw [← hstart]
    refine (hb e he).opens ?_
    rw [hstart, identBefore_succ h.lt, hident]
  · push Not at htouch
    rw [Bool.eq_false_iff]
    intro hnext
    obtain ⟨b, hbyte, -⟩ := identAt_iff.mp hnext
    have hcopied : Copied source es (p + 1) (o + 1) :=
      ⟨(List.getElem?_eq_some_iff.mp hbyte).1, htouch, h.place_succ⟩
    rw [← hcopied.identAt_eq, hcloses] at hnext
    cases hnext

end Bounded

section Words

variable (hf : ∀ e ∈ es, e.Fits source) (ha : es.Pairwise Apart) (hb : ∀ e ∈ es, e.Bounded source)
include hf ha

theorem start_eq_of_touches_stop {e e' : Edit} (he : e ∈ es) (he' : e' ∈ es) (ht : e'.touches e.stop = true) :
    e'.start = e.stop := by
  rw [touches_iff] at ht
  by_cases heq : e = e'
  · subst heq
    omega
  · have hap : Apart e e' := ha.forall he he' heq
    have := (hf e he).lt
    unfold Apart at hap
    omega

include hb

/-- **No identifier goes on behind a row of deletions**: if nothing is left of the bytes from `m` to `q`, where an
identifier ends at `m` and no edit reaches over `q`, then an identifier ends at `q`. -/
theorem identBefore_of_place_eq {m q : ℕ} (hq : q ≤ source.length) (hcut : ∀ e ∈ es, e.start < q → e.stop ≤ q)
    (hplace : place source es m = place source es q) (hmq : m ≤ q) (hm : source.identBefore m = true)
    (hstart : ∀ e ∈ es, e.touches m = true → e.start = m) :
    source.identBefore q = true ∧ (m = q ∨ ∃ e ∈ es, e.stop = q) := by
  induction hn : q - m using Nat.strong_induction_on generalizing m with
  | _ n ih =>
    rcases Nat.eq_or_lt_of_le hmq with rfl | hlt
    · exact ⟨hm, Or.inl rfl⟩
    · -- the byte at `m` is deleted
      have hnil : atByte source es m = [] := by
        have hle : place source es (m + 1) ≤ place source es q := place_mono hlt
        rw [place_succ] at hle
        exact List.length_eq_zero_iff.mp (by omega)
      have htouch : ∃ e ∈ es, e.touches m = true := by
        by_contra hno
        push Not at hno
        rw [atByte_of_not_touched hno, List.getElem?_eq_getElem (by omega)] at hnil
        simp at hnil
      obtain ⟨e, he, ht⟩ := htouch
      have hs : e.start = m := hstart e he ht
      rw [atByte_of_touches ha he ht, if_pos hs] at hnil
      have hlast : source.identBefore e.stop = true := (hb e he).inner hnil (hs ▸ hm)
      have hlt' := (hf e he).lt
      have hstop : e.stop ≤ q := hcut e he (by omega)
      have hplace' : place source es e.stop = place source es q := by
        have h₁ : place source es m ≤ place source es e.stop := place_mono (by omega)
        have h₂ : place source es e.stop ≤ place source es q := place_mono hstop
        omega
      obtain ⟨hident, hend⟩ := ih (q - e.stop) (by omega) hplace' hstop hlast
        (fun e' he' ht' => start_eq_of_touches_stop hf ha he he' ht') rfl
      refine ⟨hident, Or.inr ?_⟩
      rcases hend with rfl | hend
      · exact ⟨e, he, rfl⟩
      · exact hend

/-- **Bytes of identifiers that stand side by side in the edited text do so in the source.** -/
theorem Copied.succ_eq {p q o : ℕ} (hp : Copied source es p o) (hq : Copied source es q (o + 1))
    (hident : source.identAt p = true) (hident' : source.identAt q = true) : q = p + 1 := by
  have hlt : p < q := by
    by_contra hge
    have hle : place source es q ≤ place source es p := place_mono (Nat.le_of_not_lt hge)
    rw [hp.offset, hq.offset] at hle
    omega
  obtain ⟨hend, heq | ⟨e, he, rfl⟩⟩ := identBefore_of_place_eq hf ha hb hq.lt.le hq.cut
    (hp.place_succ.trans hq.offset.symm) hlt ((identBefore_succ hp.lt).trans hident) hp.start_eq
  · exact heq.symm
  · rw [(hb e he).closes hend] at hident'
    cases hident'

/-- **A word of the edited text that holds no inserted byte is a word of the source**, and no edit touches it. -/
theorem copied_of_wordAt {word : Text} (hw : Segment word) {o : ℕ} (h : WordAt word (edited source es) o)
    (hno : ∀ k < word.length, ∀ e ∈ es, ¬ Inserted source es e (o + k)) :
    ∃ p, Copied source es p o ∧ WordAt word source p := by
  have hle := h.le hw
  have hpos := List.length_pos_of_ne_nil hw.1
  have hcopied : ∀ k < word.length, ∃ p, Copied source es p (o + k) := by
    intro k hk
    refine (copied_or_inserted ha (by omega)).resolve_right ?_
    rintro ⟨e, he, hins⟩
    exact hno k hk e he hins
  have hident : ∀ k < word.length, ∀ p, Copied source es p (o + k) → source.identAt p = true := by
    intro k hk p hp
    rw [← hp.identAt_eq]
    exact h.ident hw hk
  obtain ⟨p, hp⟩ := hcopied 0 hpos
  rw [Nat.add_zero] at hp
  -- the bytes of the word come from offsets that follow each other
  have hrow : ∀ k < word.length, Copied source es (p + k) (o + k) := by
    intro k
    induction k with
    | zero => exact fun _ => hp
    | succ k ih =>
      intro hk
      obtain ⟨q, hq⟩ := hcopied (k + 1) hk
      have hprev := ih (by omega)
      have hnext : q = p + k + 1 :=
        hprev.succ_eq hf ha hb hq (hident k (by omega) _ hprev) (hident (k + 1) hk q hq)
      rwa [hnext] at hq
  obtain ⟨n, hn⟩ : ∃ n, word.length = n + 1 := ⟨word.length - 1, by omega⟩
  have hlast := hrow n (by omega)
  refine ⟨p, hp, ?_, ?_, ?_⟩
  · rw [← h.spells]
    congr 1
    refine List.ext_getElem? fun k => ?_
    rcases Nat.lt_or_ge k word.length with hk | hk
    · simp only [slice, Nat.add_sub_cancel_left, List.getElem?_take_of_lt hk, List.getElem?_drop]
      exact (hrow k hk).getElem?.symm
    · simp only [slice, Nat.add_sub_cancel_left]
      rw [List.getElem?_eq_none (by rw [List.length_take]; omega),
        List.getElem?_eq_none (by rw [List.length_take]; omega)]
  · exact hp.identBefore_eq_false hb (hident 0 hpos p hp) h.opens
  · rw [hn, ← Nat.add_assoc]
    refine hlast.identAt_eq_false hb (hident n (by omega) _ hlast) ?_
    rw [Nat.add_assoc, ← hn]
    exact h.closes

/-! ### Words with inserted bytes -/

omit hf hb in
theorem place_of_within {e : Edit} (he : e ∈ es) {p : ℕ} (h : e.start < p) (h' : p ≤ e.stop) :
    place source es p = place source es e.start + e.replacement.length := by
  induction p, h using Nat.le_induction with
  | base =>
    rw [Nat.succ_eq_add_one, place_succ, atByte_of_touches ha he (touches_iff.mpr ⟨le_rfl, h'⟩), if_pos rfl]
  | succ p hp ih =>
    have ht : e.touches p = true := touches_iff.mpr ⟨by omega, h'⟩
    rw [place_succ, ih (by omega), atByte_of_touches ha he ht, if_neg (by omega), List.length_nil, Nat.add_zero]

omit hb in
theorem place_stop {e : Edit} (he : e ∈ es) :
    place source es e.stop = place source es e.start + e.replacement.length :=
  place_of_within ha he (hf e he).lt le_rfl

omit hb in
theorem Copied.not_inserted {p o : ℕ} (hp : Copied source es p o) {e : Edit} (he : e ∈ es) :
    ¬ Inserted source es e o := by
  rintro ⟨h₁, h₂⟩
  have hfree := hp.free e he
  rw [touches_iff] at hfree
  have hoffset := hp.offset
  rcases Nat.lt_or_ge p e.start with hlt | hge
  · have hle : place source es (p + 1) ≤ place source es e.start := place_mono hlt
    rw [hp.place_succ] at hle
    omega
  · have hle : place source es e.stop ≤ place source es p := place_mono (by omega)
    rw [place_stop hf ha he] at hle
    omega

/-- In front of a replacement whose range starts with an identifier no identifier is left. -/
theorem Copied.not_inserted_succ {p o : ℕ} (hp : Copied source es p o) (hident : source.identAt p = true) {e : Edit}
    (he : e ∈ es) (hstart : source.identAt e.start = true) : ¬ Inserted source es e (o + 1) := by
  intro hins
  have hno := hp.not_inserted hf ha he
  obtain ⟨h₁, h₂⟩ := hins
  have hplace : place source es e.start = o + 1 := by
    by_contra hne
    exact hno ⟨by omega, by omega⟩
  have hlt : p < e.start := by
    by_contra hge
    have hle : place source es e.start ≤ place source es p := place_mono (Nat.le_of_not_lt hge)
    rw [hp.offset] at hle
    omega
  have hcut : ∀ e' ∈ es, e'.start < e.start → e'.stop ≤ e.start := by
    intro e' he' hlt'
    have hne : e' ≠ e := fun h => by rw [h] at hlt'; omega
    have hapart : Apart e' e := ha.forall he' he hne
    have := (hf e he).lt
    unfold Apart at hapart
    omega
  have hbefore := (identBefore_of_place_eq hf ha hb ((hf e he).lt.le.trans (hf e he).le) hcut
    (hp.place_succ.trans hplace.symm) hlt ((identBefore_succ hp.lt).trans hident) hp.start_eq).1
  rw [(hb e he).opens hbefore] at hstart
  cases hstart

/-- Behind a replacement whose range ends with an identifier no identifier is left. -/
theorem Copied.not_inserted_pred {q o : ℕ} (hq : Copied source es q (o + 1)) (hident : source.identAt q = true)
    {e : Edit} (he : e ∈ es) (hstop : source.identBefore e.stop = true) : ¬ Inserted source es e o := by
  intro hins
  have hno := hq.not_inserted hf ha he
  obtain ⟨h₁, h₂⟩ := hins
  have hplace : place source es e.stop = o + 1 := by
    rw [place_stop hf ha he]
    by_contra hne
    exact hno ⟨by omega, by omega⟩
  have hle : e.stop ≤ q := by
    by_contra hlt
    have hle : place source es (q + 1) ≤ place source es e.stop := place_mono (Nat.lt_of_not_le hlt)
    rw [hq.place_succ] at hle
    omega
  obtain ⟨hbefore, hend⟩ := identBefore_of_place_eq hf ha hb hq.lt.le hq.cut (hplace.trans hq.offset.symm) hle hstop
    fun e' he' ht => start_eq_of_touches_stop hf ha he he' ht
  obtain ⟨e', he', rfl⟩ : ∃ e' ∈ es, e'.stop = q := by
    rcases hend with rfl | hend
    · exact ⟨e, he, rfl⟩
    · exact hend
  rw [(hb e' he').closes hbefore] at hident
  cases hident

/-- **A word of the edited text that holds an inserted byte is inserted as a whole**, if what is replaced starts and
ends with an identifier. -/
theorem inserted_of_wordAt {word : Text} (hw : Segment word) {o : ℕ} (h : WordAt word (edited source es) o)
    (hnames : ∀ e ∈ es, e.replacement ≠ [] → source.identAt e.start = true ∧ source.identBefore e.stop = true)
    (hins : ∃ k < word.length, ∃ e ∈ es, Inserted source es e (o + k)) :
    ∀ k < word.length, ∃ e ∈ es, Inserted source es e (o + k) := by
  have hle := h.le hw
  have hname : ∀ e ∈ es, ∀ i, Inserted source es e i →
      source.identAt e.start = true ∧ source.identBefore e.stop = true :=
    fun e he i hei => hnames e he hei.replacement_ne_nil
  have hident : ∀ k < word.length, ∀ p, Copied source es p (o + k) → source.identAt p = true := by
    intro k hk p hp
    rw [← hp.identAt_eq]
    exact h.ident hw hk
  -- inserted bytes have no copied byte next to them
  have hup : ∀ k, k + 1 < word.length → (∃ e ∈ es, Inserted source es e (o + k)) →
      ∃ e ∈ es, Inserted source es e (o + (k + 1)) := by
    rintro k hk ⟨e, he, hek⟩
    refine (copied_or_inserted ha (by omega)).resolve_left ?_
    rintro ⟨q, hq⟩
    exact hq.not_inserted_pred hf ha hb (hident (k + 1) hk q hq) he (hname e he _ hek).2 hek
  have hdown : ∀ k, k + 1 < word.length → (∃ e ∈ es, Inserted source es e (o + (k + 1))) →
      ∃ e ∈ es, Inserted source es e (o + k) := by
    rintro k hk ⟨e, he, hek⟩
    refine (copied_or_inserted ha (by omega)).resolve_left ?_
    rintro ⟨p, hp⟩
    exact hp.not_inserted_succ hf ha hb (hident k (by omega) p hp) he (hname e he _ hek).1 hek
  obtain ⟨n, hn, hins⟩ := hins
  have hzero : ∃ e ∈ es, Inserted source es e (o + 0) := by
    induction n with
    | zero => exact hins
    | succ n ih => exact ih (by omega) (hdown n hn hins)
  intro k
  induction k with
  | zero => exact fun _ => hzero
  | succ k ih => exact fun hk => hup k hk (ih (by omega))

end Words

end Edit

end Polyfill
