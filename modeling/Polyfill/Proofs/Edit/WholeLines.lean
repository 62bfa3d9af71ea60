import Mathlib.Data.List.TakeWhile
import Polyfill.Edit.Line
import Polyfill.Proofs.Text.Blank

/-! # The lines that a deletion takes

Widening looks at the line on which a range starts and at the line on which it ends. If the range shares them
with blanks only, it takes both whole; with the last one goes its line feed, and where a blank line (or none)
stands in front and a blank line follows, that one goes, too. Otherwise the range stays as it is. This is all
that widening does, and the lines are those of the source, read off its line feeds.

* `StartsLine`, `EndsLine`, `BlankLine`: the lines of a text.
* `Alone`: a range shares its lines with blanks only; `LinesEnd`: where the lines that go with it end.
* `expandToLine_cases`: the widened range is the lines of a range that is alone on them, or the range itself.
* `expandToLine_takes_lines`: what widening adds. -/

namespace Polyfill

variable {source : Text} {p : UInt8 → Bool} {a z n s e k : ℕ}

/-! ### Lines -/

/-- A byte that can stand in a blank line or end one. -/
def isLineSpace (b : UInt8) : Bool := isLineBlank b || b == 0x0A

theorem isLineSpace_of_isLineBlank {b : UInt8} (h : isLineBlank b = true) : isLineSpace b = true := by
  simp [isLineSpace, h]

theorem isLineSpace_of_isIndent {b : UInt8} (h : isIndent b = true) : isLineSpace b = true := by
  simp [isLineSpace, isLineBlank, h]

/-- All bytes from the offset `a` up to `z` are of the class `p`. -/
def Only (source : Text) (p : UInt8 → Bool) (a z : ℕ) : Prop :=
  ∀ i, a ≤ i → i < z → ∃ b, source[i]? = some b ∧ p b = true

/-- A line starts at the offset `a`. -/
def StartsLine (source : Text) (a : ℕ) : Prop := a = 0 ∨ source[a - 1]? = some 0x0A

/-- A line ends at the offset `z`, with the source or with the line feed there. -/
def EndsLine (source : Text) (z : ℕ) : Prop := z = source.length ∨ source[z]? = some 0x0A

/-- From the offset `a` up to `n` there are blanks and the line feed behind them. -/
structure BlankLine (source : Text) (a n : ℕ) : Prop where
  lt : a < n
  blanks : Only source isLineBlank a (n - 1)
  feed : source[n - 1]? = some 0x0A

/-- The line in front of the offset `a` is blank, or there is none. -/
def BlankBefore (source : Text) (a : ℕ) : Prop := a = 0 ∨ ∃ c, StartsLine source c ∧ BlankLine source c a

/-- The range from `s` to `e` shares its lines with blanks only. The lines of a range are those on which its start
and its end lie: they start at `a`, and the last one ends at `z`, without its line feed. -/
structure Alone (source : Text) (s e a z : ℕ) : Prop where
  start_le : a ≤ s
  startsLine : StartsLine source a
  before : Only source isIndent a s
  le_stop : e ≤ z
  endsLine : EndsLine source z
  after : Only source isLineBlank e z

/-- What goes with the lines from `a` to `z` ends at the offset `n`. -/
inductive LinesEnd (source : Text) (a z : ℕ) : ℕ → Prop
  /-- The source ends with the last line. -/
  | source : z = source.length → LinesEnd source a z z
  /-- The line feed of the last line goes. -/
  | line : source[z]? = some 0x0A → ¬ (BlankBefore source a ∧ ∃ n, BlankLine source (z + 1) n) →
    LinesEnd source a z (z + 1)
  /-- One of two blank lines around the lines goes with them. -/
  | gap {n : ℕ} : source[z]? = some 0x0A → BlankBefore source a → BlankLine source (z + 1) n →
    LinesEnd source a z n

/-! ### What a scan passes -/

theorem Only.append (h : Only source p a s) (h' : Only source p s z) : Only source p a z := fun i ha hz => by
  rcases Nat.lt_or_ge i s with hi | hi
  · exact h i ha hi
  · exact h' i hi hz

theorem Only.mono {q : UInt8 → Bool} (h : Only source p a z) (hq : ∀ b, p b = true → q b = true) :
    Only source q a z := fun i ha hz => by
  obtain ⟨b, hb, hp⟩ := h i ha hz
  exact ⟨b, hb, hq b hp⟩

theorem Only.forall_mem_slice (h : Only source p a z) : ∀ b ∈ source.slice a z, p b = true := by
  intro b hb
  obtain ⟨i, hi⟩ := List.mem_iff_getElem?.mp hb
  rw [Text.getElem?_slice] at hi
  split_ifs at hi with hlt
  obtain ⟨b', hb', hp⟩ := h (a + i) (by omega) (by omega)
  rw [hi] at hb'
  cases hb'
  exact hp

theorem take_eq_append_slice (h : a ≤ s) : source.take s = source.take a ++ source.slice a s := by
  rw [Text.slice, ← List.take_add, Nat.add_sub_cancel' h]

theorem drop_eq_slice_append (h : e ≤ z) : source.drop e = source.slice e z ++ source.drop z := by
  rw [Text.slice, ← Nat.add_sub_cancel' h, ← List.drop_drop, Nat.add_sub_cancel_left, List.take_append_drop]

theorem reverse_take_succ (h : a < source.length) :
    (source.take (a + 1)).reverse = source[a] :: (source.take a).reverse := by
  rw [List.take_succ_eq_append_getElem h, List.reverse_concat]

theorem atLineBreak_reverse_take (ha : a ≤ source.length) :
    atLineBreak (source.take a).reverse = true ↔ StartsLine source a := by
  cases a with
  | zero => simp [atLineBreak, StartsLine]
  | succ a =>
    rw [reverse_take_succ ha, atLineBreak, beq_iff_eq, StartsLine, Nat.add_sub_cancel,
      List.getElem?_eq_getElem ha]
    simp

theorem atLineBreak_drop (hz : z ≤ source.length) : atLineBreak (source.drop z) = true ↔ EndsLine source z := by
  rcases Nat.eq_or_lt_of_le hz with rfl | hlt
  · simp [atLineBreak, EndsLine]
  · rw [List.drop_eq_getElem_cons hlt, atLineBreak, beq_iff_eq, EndsLine, List.getElem?_eq_getElem hlt,
      Option.some_inj, or_iff_right hlt.ne]

theorem EndsLine.le (h : EndsLine source z) : z ≤ source.length := by
  rcases h with rfl | h
  · exact le_rfl
  · exact (List.getElem?_eq_some_iff.mp h).1.le

theorem scan_append (hp : p 0x0A = false) {u v : Text} (hu : ∀ b ∈ u, p b = true) (hv : atLineBreak v = true) :
    (u ++ v).takeWhile p = u ∧ (u ++ v).dropWhile p = v := by
  rw [List.takeWhile_append_of_pos hu, List.dropWhile_append_of_pos hu]
  cases v with
  | nil => simp
  | cons b v =>
    rw [atLineBreak, beq_iff_eq] at hv
    simp [hv, hp]

theorem scan_left (hp : p 0x0A = false) (has : a ≤ s) (hs : s ≤ source.length) (ha : StartsLine source a)
    (ho : Only source p a s) :
    ((source.take s).reverse.takeWhile p).length = s - a ∧
      (source.take s).reverse.dropWhile p = (source.take a).reverse := by
  rw [take_eq_append_slice has, List.reverse_append]
  obtain ⟨ht, hd⟩ := scan_append hp (fun b hb => ho.forall_mem_slice b (List.mem_reverse.mp hb))
    ((atLineBreak_reverse_take (has.trans hs)).mpr ha)
  rw [ht, hd, List.length_reverse, Text.slice, List.length_take, List.length_drop]
  exact ⟨by omega, rfl⟩

theorem scan_right (hp : p 0x0A = false) (hez : e ≤ z) (hz : EndsLine source z) (ho : Only source p e z) :
    ((source.drop e).takeWhile p).length = z - e ∧ (source.drop e).dropWhile p = source.drop z := by
  have hle := hz.le
  rw [drop_eq_slice_append hez]
  obtain ⟨ht, hd⟩ := scan_append hp ho.forall_mem_slice ((atLineBreak_drop hle).mpr hz)
  rw [ht, hd, Text.slice, List.length_take, List.length_drop]
  exact ⟨by omega, rfl⟩

theorem exists_scan_left (p : UInt8 → Bool) (hs : s ≤ source.length) :
    ∃ a ≤ s, Only source p a s ∧ (source.take s).reverse.dropWhile p = (source.take a).reverse := by
  induction s with
  | zero => exact ⟨0, le_rfl, fun i h h' => by omega, by simp⟩
  | succ s ih =>
    rw [reverse_take_succ hs]
    by_cases hb : p source[s] = true
    · obtain ⟨a, has, ho, hd⟩ := ih (by omega)
      refine ⟨a, by omega, fun i hai his => ?_, by rw [List.dropWhile_cons_of_pos hb, hd]⟩
      rcases Nat.lt_or_ge i s with hi | hi
      · exact ho i hai hi
      · obtain rfl : i = s := by omega
        exact ⟨source[i], List.getElem?_eq_getElem hs, hb⟩
    · refine ⟨s + 1, le_rfl, fun i h h' => by omega, ?_⟩
      rw [List.dropWhile_cons_of_neg hb, reverse_take_succ hs]

theorem exists_scan_right (p : UInt8 → Bool) (he : e ≤ source.length) :
    ∃ z, e ≤ z ∧ z ≤ source.length ∧ Only source p e z ∧ (source.drop e).dropWhile p = source.drop z := by
  have hsplit := List.takeWhile_append_dropWhile (p := p) (l := source.drop e)
  have hlen := congrArg List.length hsplit
  rw [List.length_append, List.length_drop] at hlen
  refine ⟨e + ((source.drop e).takeWhile p).length, by omega, by omega, fun i hei hiz => ?_, ?_⟩
  · have hi : i - e < ((source.drop e).takeWhile p).length := by omega
    have hget := (List.takeWhile_prefix p (l := source.drop e)).getElem hi
    refine ⟨((source.drop e).takeWhile p)[i - e], ?_, List.mem_takeWhile_imp (List.getElem_mem hi)⟩
    rw [hget, List.getElem_drop, List.getElem?_eq_getElem (by omega)]
    simp [show e + (i - e) = i by omega]
  · rw [← List.drop_drop]
    nth_rewrite 3 [← hsplit]
    rw [List.drop_left]

theorem atLineBreak_scan_left (hp : p 0x0A = false) (hs : s ≤ source.length) :
    atLineBreak ((source.take s).reverse.dropWhile p) = true ↔
      ∃ a ≤ s, StartsLine source a ∧ Only source p a s := by
  constructor
  · intro h
    obtain ⟨a, has, ho, hd⟩ := exists_scan_left p hs
    rw [hd, atLineBreak_reverse_take (has.trans hs)] at h
    exact ⟨a, has, h, ho⟩
  · rintro ⟨a, has, ha, ho⟩
    rw [(scan_left hp has hs ha ho).2, atLineBreak_reverse_take (has.trans hs)]
    exact ha

theorem atLineBreak_scan_right (hp : p 0x0A = false) (he : e ≤ source.length) :
    atLineBreak ((source.drop e).dropWhile p) = true ↔ ∃ z, e ≤ z ∧ EndsLine source z ∧ Only source p e z := by
  constructor
  · intro h
    obtain ⟨z, hez, hz, ho, hd⟩ := exists_scan_right p he
    rw [hd, atLineBreak_drop hz] at h
    exact ⟨z, hez, h, ho⟩
  · rintro ⟨z, hez, hz, ho⟩
    rw [(scan_right hp hez hz ho).2, atLineBreak_drop hz.le]
    exact hz

/-! ### The lines around a range -/

theorem blankBefore_iff (ha : StartsLine source a) (hle : a ≤ source.length) :
    (match (source.take a).reverse with
      | [] => true
      | _ :: previous => blankLineBefore previous) = true ↔ BlankBefore source a := by
  cases a with
  | zero => simp [BlankBefore]
  | succ a =>
    rw [reverse_take_succ hle]
    refine (atLineBreak_scan_left rfl (by omega)).trans ?_
    constructor
    · rintro ⟨c, hca, hc, ho⟩
      exact Or.inr ⟨c, hc, ⟨by omega, ho, ha.resolve_left (by omega)⟩⟩
    · rintro (h | ⟨c, hc, hb⟩)
      · omega
      · exact ⟨c, Nat.le_of_lt_succ hb.lt, hc, hb.blanks⟩

theorem blankLineLength?_eq_some_iff (hn : n ≤ source.length) :
    blankLineLength? (source.drop n) = some k ↔ BlankLine source n (n + k) := by
  obtain ⟨z, hnz, hz, ho, hd⟩ := exists_scan_right isLineBlank hn
  unfold blankLineLength?
  constructor
  · intro h
    split at h
    · next rest hr =>
      cases h
      rw [hd] at hr
      have hfeed : source[z]? = some 0x0A := by
        rw [← Nat.add_zero z, ← List.getElem?_drop, hr, List.getElem?_cons_zero]
      rw [(scan_right rfl hnz (Or.inr hfeed) ho).1, show n + (z - n + 1) = z + 1 by omega]
      exact ⟨by omega, ho, hfeed⟩
    · cases h
  · intro h
    have hlt := h.lt
    obtain ⟨hlen, hdrop⟩ := scan_right rfl (by omega : n ≤ n + k - 1) (Or.inr h.feed) h.blanks
    obtain ⟨hin, hb⟩ := List.getElem?_eq_some_iff.mp h.feed
    rw [hdrop, List.drop_eq_getElem_cons hin, hb, hlen]
    exact congrArg some (by omega)

/-- **The widening of a range that is alone on its lines.** -/
theorem expandToLine_of_alone (h : Alone source s e a z) (hs : s ≤ source.length) :
    ∃ n, LinesEnd source a z n ∧ expandToLine source s e = (a, n) := by
  obtain ⟨hfirst, houter⟩ := scan_left rfl h.start_le hs h.startsLine h.before
  obtain ⟨hlast, hinner⟩ := scan_right rfl h.le_stop h.endsLine h.after
  have hle := h.endsLine.le
  have hbreaks : (atLineBreak (source.take a).reverse && atLineBreak (source.drop z)) = true := by
    rw [Bool.and_eq_true, atLineBreak_reverse_take (h.start_le.trans hs), atLineBreak_drop hle]
    exact ⟨h.startsLine, h.endsLine⟩
  have hstart := h.start_le
  have hstop := h.le_stop
  have hblank := blankBefore_iff h.startsLine (hstart.trans hs)
  unfold expandToLine
  simp only [hfirst, houter, hlast, hinner, hbreaks, Bool.not_true, Bool.false_eq_true, if_false,
    show s - (s - a) = a by omega, show e + (z - e) = z by omega]
  rcases Nat.eq_or_lt_of_le hle with heq | hlt
  · rw [List.drop_eq_nil_of_le heq.ge]
    exact ⟨z, .source heq, rfl⟩
  · have hfeed := h.endsLine.resolve_left hlt.ne
    have hnext := fun k => blankLineLength?_eq_some_iff (k := k) (Nat.succ_le_of_lt hlt)
    rw [List.drop_eq_getElem_cons hlt]
    dsimp only
    split
    · next k hk =>
      by_cases hbefore : BlankBefore source a
      · exact ⟨_, .gap hfeed hbefore ((hnext k).mp hk), if_pos (hblank.mpr hbefore)⟩
      · exact ⟨_, .line hfeed fun hgap => hbefore hgap.1, if_neg fun h => hbefore (hblank.mp h)⟩
    · next hnone =>
      refine ⟨_, .line hfeed fun ⟨_, n, hn⟩ => ?_, rfl⟩
      obtain ⟨k, rfl⟩ := Nat.exists_eq_add_of_le hn.lt.le
      rw [(hnext k).mpr hn] at hnone
      cases hnone

/-- **A range that is alone on its lines is widened to them, any other stays as it is.** -/
theorem expandToLine_cases (hs : s ≤ source.length) (he : e ≤ source.length) :
    (∃ a z n, Alone source s e a z ∧ LinesEnd source a z n ∧ expandToLine source s e = (a, n)) ∨
      (¬ ∃ a z, Alone source s e a z) ∧ expandToLine source s e = (s, e) := by
  by_cases h : ∃ a z, Alone source s e a z
  · obtain ⟨a, z, h⟩ := h
    obtain ⟨n, hn, heq⟩ := expandToLine_of_alone h hs
    exact Or.inl ⟨a, z, n, h, hn, heq⟩
  · refine Or.inr ⟨h, ?_⟩
    unfold expandToLine
    dsimp only
    rw [if_pos]
    rw [Bool.not_eq_true', ← Bool.not_eq_true, Bool.and_eq_true, atLineBreak_scan_left rfl hs,
      atLineBreak_scan_right rfl he]
    rintro ⟨⟨a, has, ha, hbefore⟩, z, hez, hz, hafter⟩
    exact h ⟨a, z, has, ha, hbefore, hez, hz, hafter⟩

/-! ### What is added -/

theorem Only.refl (source : Text) (p : UInt8 → Bool) (a : ℕ) : Only source p a a :=
  fun i h₁ h₂ => absurd h₂ (by omega)

theorem BlankLine.only (h : BlankLine source a n) : Only source isLineSpace a n := fun i ha hn => by
  rcases Nat.lt_or_ge i (n - 1) with hi | hi
  · exact h.blanks.mono (fun _ => isLineSpace_of_isLineBlank) i ha hi
  · obtain rfl : i = n - 1 := by omega
    exact ⟨0x0A, h.feed, by decide⟩

theorem blankLine_of_feed (h : source[z]? = some 0x0A) : BlankLine source z (z + 1) where
  lt := Nat.lt_succ_self z
  blanks := .refl _ _ _
  feed := h

namespace LinesEnd

variable (h : LinesEnd source a z n)
include h

theorem le : z ≤ n := by
  cases h with
  | source => exact le_rfl
  | line => exact Nat.le_succ z
  | gap _ _ hb => exact (Nat.le_succ z).trans hb.lt.le

theorem feed_or_eq : source[n - 1]? = some 0x0A ∨ n = source.length := by
  cases h with
  | source hz => exact Or.inr hz
  | line hfeed => exact Or.inl hfeed
  | gap _ _ hb => exact Or.inl hb.feed

theorem le_length : n ≤ source.length := by
  rcases h.feed_or_eq with hfeed | heq
  · have := (List.getElem?_eq_some_iff.mp hfeed).1
    omega
  · exact heq.le

theorem only : Only source isLineSpace z n := by
  cases h with
  | source => exact .refl _ _ _
  | line hfeed => exact (blankLine_of_feed hfeed).only
  | gap hfeed _ hb => exact (blankLine_of_feed hfeed).only.append hb.only

end LinesEnd

/-- **What widening takes.** The widened range holds the range, lies in the source, and adds indentation in front
and blanks and line feeds behind. It differs from the range only where the range is alone on its lines. Then it
starts with the first of them and ends behind a line feed or with the source; beyond these lines it takes at most
one more, which is blank, and only if the line in front of them is blank, too, or there is none. -/
theorem expandToLine_takes_lines {source : Text} {s e : ℕ} (hse : s ≤ e) (he : e ≤ source.length) :
    let r := expandToLine source s e
    (r.1 ≤ s ∧ e ≤ r.2 ∧ r.2 ≤ source.length) ∧
      (Only source isIndent r.1 s ∧ Only source isLineSpace e r.2) ∧
      (r ≠ (s, e) → ∃ a z, Alone source s e a z) ∧
      ∀ a z, Alone source s e a z → r.1 = a ∧ StartsLine source a ∧
        (source[r.2 - 1]? = some 0x0A ∨ r.2 = source.length) ∧ LinesEnd source a z r.2 := by
  intro r
  have hs := hse.trans he
  have hlines : ∀ a z, Alone source s e a z → r.1 = a ∧ StartsLine source a ∧
      (source[r.2 - 1]? = some 0x0A ∨ r.2 = source.length) ∧ LinesEnd source a z r.2 := by
    intro a z h
    obtain ⟨n, hn, heq⟩ := expandToLine_of_alone h hs
    rw [show r = (a, n) from heq]
    exact ⟨rfl, h.startsLine, hn.feed_or_eq, hn⟩
  rcases expandToLine_cases hs he with ⟨a, z, n, h, hn, heq⟩ | ⟨hno, heq⟩
  · rw [show r = (a, n) from heq] at hlines ⊢
    have hafter := h.after.mono fun _ => isLineSpace_of_isLineBlank
    exact ⟨⟨h.start_le, h.le_stop.trans hn.le, hn.le_length⟩, ⟨h.before, hafter.append hn.only⟩,
      fun _ => ⟨a, z, h⟩, hlines⟩
  · rw [show r = (s, e) from heq] at hlines ⊢
    exact ⟨⟨le_rfl, le_rfl, he⟩, ⟨.refl _ _ _, .refl _ _ _⟩, fun h => absurd rfl h, hlines⟩

/-- A range between two blank lines takes its own line and the blank one behind it. -/
theorem expandToLine_takes_lines_sample :
    let source := Text.ofString "a;\n\n  b;\x0D\n\t\nc;"
    (6 ≤ 8 ∧ 8 ≤ source.length) ∧ expandToLine source 6 8 = (4, 12) ∧
      ∃ a z, Alone source 6 8 a z ∧ LinesEnd source a z 12 := by
  intro source
  have hse : 6 ≤ 8 := by decide
  have he : 8 ≤ source.length := by decide
  have heq : expandToLine source 6 8 = (4, 12) := by decide
  obtain ⟨-, -, halone, hlines⟩ := expandToLine_takes_lines hse he
  obtain ⟨a, z, h⟩ := halone (by rw [heq]; decide)
  have hend := (hlines a z h).2.2.2
  rw [heq] at hend
  exact ⟨⟨hse, he⟩, heq, a, z, h, hend⟩

end Polyfill
