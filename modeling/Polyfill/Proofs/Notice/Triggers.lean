import Polyfill.Proofs.Prune.Survey
import Polyfill.Source.Parse
import Polyfill.Transform

/-! # Triggers and verdicts

What triggers the removal of a notice enters a verdict in one place only, where a literal of the notice is asked for,
and there it counts in favour of removal. So does a name of the facade: a call of anything else never goes. Wrappers
ask that all statements of a callback go, never that one of them stays. So a judge that knows more triggers, and more
names of the facade, removes all that the other one removes. The tokens of an entry are triggers only if the settings
ask for them; otherwise they have no part in a verdict, and the file of one entry is pruned as that of any other.

* `Judge.Within`: two judges that ask for the same methods, of which the second knows all that the first knows.
* `Judge.inspect_mono`: the second removes what the first removes.
* `Settings.activeTokens`: the tokens that count under given settings.
* `removal_mono`: both for the judges of settings. -/

namespace Polyfill

open Source Notice Mapping

namespace Notice

/-! ### Two judges -/

namespace Judge

/-- **The judges ask for the same methods, and the second knows all names of the facade and all triggers of the
first.** -/
structure Within (j j' : Judge) : Prop where
  facade : ∀ name, j.isFacade name = true → j'.isFacade name = true
  notice : ∀ method, j'.isNotice method = j.isNotice method
  wrapper : ∀ method, j'.isWrapper method = j.isWrapper method
  trigger : ∀ text, j.isTrigger text = true → j'.isTrigger text = true

variable {j j' : Judge}

theorem notice_eq_remove_iff {args : List Arg} :
    j.notice args = .remove ↔ ∃ t ∈ args.flatMap fun a => literals a.value, j.isTrigger t = true := by
  rw [Judge.notice, ← List.any_eq_true]
  split
  · next h => simp [h]
  · next h => simp [h]

theorem Within.notice_mono (h : Within j j') {args : List Arg} (hr : j.notice args = .remove) :
    j'.notice args = .remove := by
  obtain ⟨t, ht, htrigger⟩ := notice_eq_remove_iff.mp hr
  exact notice_eq_remove_iff.mpr ⟨t, ht, h.trigger t htrigger⟩

-- The induction follows the verdict. Where the first judge removes, the second takes the same branch, and only a notice
-- at the end of one asks for triggers.
mutual

theorem inspectExpr_mono (h : Within j j') :
    ∀ e : Expr, j.inspectExpr e = some .remove → j'.inspectExpr e = some .remove
  | .parens e, hr => by
    rw [inspectExpr] at hr ⊢
    exact inspectExpr_mono h e hr
  | .staticCall (.name target) (.named method) args, hr => by
    rw [inspectExpr] at hr ⊢
    rw [h.notice, h.wrapper]
    split at hr
    · next hf =>
      rw [if_pos (h.facade _ hf)]
      split at hr
      · next hn => rw [if_pos hn, h.notice_mono (Option.some.inj hr)]
      · next hn =>
        rw [if_neg hn]
        split at hr
        · next hw => rw [if_pos hw, inspectCallback_mono h args (Option.some.inj hr)]
        · cases hr
    · cases hr
  | .staticCall (.name _) (.computed _) _, hr | .staticCall (.string _) _ _, hr | .staticCall (.parens _) _ _, hr
  | .staticCall (.binary _ _) _ _, hr | .staticCall (.call _ _) _ _, hr | .staticCall (.staticCall _ _ _) _ _, hr
  | .staticCall (.closure _ _) _ _, hr | .staticCall (.arrow _ _) _ _, hr
  | .staticCall (.anonymousClass _ _) _ _, hr | .staticCall (.compound _ _) _ _, hr
  | .name _, hr | .string _, hr | .binary _ _, hr | .call _ _, hr | .closure _ _, hr | .arrow _ _, hr
  | .anonymousClass _ _, hr | .compound _ _, hr => by simp [inspectExpr] at hr

theorem inspectCallback_mono (h : Within j j') :
    ∀ args : List Arg, j.inspectCallback args = .remove → j'.inspectCallback args = .remove
  | [], hr => by simp [inspectCallback] at hr
  | .mk _ callback :: _, hr => by
    rw [inspectCallback] at hr ⊢
    exact inspectFunction_mono h callback hr

theorem inspectFunction_mono (h : Within j j') :
    ∀ e : Expr, j.inspectFunction e = .remove → j'.inspectFunction e = .remove
  | .parens e, hr => by
    rw [inspectFunction] at hr ⊢
    exact inspectFunction_mono h e hr
  | .closure _ (.mk _ _ ss), hr => by
    rw [inspectFunction] at hr ⊢
    split at hr
    · next hss =>
      obtain ⟨hne, hall⟩ := Bool.and_eq_true_iff.mp hss
      rw [if_pos (Bool.and_eq_true_iff.mpr ⟨hne, allRemoved_mono h ss hall⟩)]
    · cases hr
  | .arrow _ e, hr => by
    rw [inspectFunction] at hr ⊢
    have he : j.inspectExpr e = some .remove := by
      cases hv : j.inspectExpr e with
      | none => simp [hv] at hr
      | some v => simpa [hv] using hr
    rw [inspectExpr_mono h e he, Option.getD_some]
  | .name _, hr | .string _, hr | .binary _ _, hr | .call _ _, hr | .staticCall _ _ _, hr
  | .anonymousClass _ _, hr | .compound _ _, hr => by simp [inspectFunction] at hr

theorem allRemoved_mono (h : Within j j') :
    ∀ ss : List Stmt, j.allRemoved ss = true → j'.allRemoved ss = true
  | [], _ => by rw [allRemoved]
  | s :: ss, hr => by
    rw [allRemoved, Bool.and_eq_true, beq_iff_eq] at hr ⊢
    exact ⟨inspect_mono h s hr.1, allRemoved_mono h ss hr.2⟩

/-- **A judge that knows more removes what one that knows less removes.** -/
theorem inspect_mono (h : Within j j') :
    ∀ s : Stmt, j.inspect s = some .remove → j'.inspect s = some .remove
  | .expression _ e, hr => by
    rw [inspect] at hr ⊢
    exact inspectExpr_mono h e hr
  | .block _, hr | .control _ _ _, hr | .namespaceDecl _ _ _, hr | .importDecl _ _, hr | .classDecl _ _ _ _, hr
  | .functionDecl _ _ _, hr | .other _ _ _, hr => by simp [inspect] at hr

end

theorem classify_eq_remove_iff {s : Stmt} : j.classify s = .remove ↔ j.inspect s = some .remove := by
  rw [← Prune.removes_iff, Judge.removes, beq_iff_eq]

end Judge

/-! ### The judges of settings -/

/-- The tokens that count: none if the settings do not ask for them. -/
def Settings.activeTokens (s : Settings) (tokens : List Token) : List Token := if s.configAware then tokens else []

theorem isTrigger_ofSettings (s : Settings) (aliases : List Text) (tokens : List Token) (text : Text) :
    (Judge.ofSettings s aliases tokens).isTrigger text =
      (containsPhrase s.phrases text || mentionedIn (s.activeTokens tokens) text) := by
  rw [Judge.ofSettings, Settings.activeTokens]
  cases s.configAware <;> cases tokens <;> simp [mentionedIn]

theorem any_mono {α : Type} {l l' : List α} (h : l ⊆ l') (p : α → Bool) (hl : l.any p = true) : l'.any p = true := by
  obtain ⟨a, ha, hp⟩ := List.any_eq_true.mp hl
  exact List.any_eq_true.mpr ⟨a, h ha, hp⟩

theorem within_ofSettings {s s' : Settings} (hfacade : s'.facade = s.facade)
    (hnotice : s'.noticeMethods = s.noticeMethods) (hwrapper : s'.wrapperMethods = s.wrapperMethods)
    {aliases aliases' : List Text} (haliases : aliases ⊆ aliases') {tokens tokens' : List Token}
    (hphrases : s.phrases ⊆ s'.phrases) (htokens : s.activeTokens tokens ⊆ s'.activeTokens tokens') :
    Judge.Within (.ofSettings s aliases tokens) (.ofSettings s' aliases' tokens') where
  facade name := by
    simp only [Judge.ofSettings, hfacade, Bool.or_eq_true]
    exact Or.imp_right (any_mono haliases _)
  notice method := by simp only [Judge.ofSettings, hnotice]
  wrapper method := by simp only [Judge.ofSettings, hwrapper]
  trigger text := by
    rw [isTrigger_ofSettings, isTrigger_ofSettings, Bool.or_eq_true, Bool.or_eq_true]
    exact Or.imp (any_mono hphrases _) (any_mono htokens _)

theorem ofSettings_eq_of_phrasesOnly {s : Settings} (h : s.configAware = false) (aliases : List Text)
    (tokens tokens' : List Token) : Judge.ofSettings s aliases tokens = Judge.ofSettings s aliases tokens' := by
  simp only [Judge.ofSettings, h, Bool.false_and]

end Notice

/-- **More triggers remove more, and without tokens the entry does not matter.** Let two judges have the same facade,
methods and aliases, and let the phrases and the tokens that count for the first be among those for the second: then
the second removes every statement that the first removes. If the settings do not ask for tokens, a program is pruned
alike for any two entries, with the same edits and the same number of removed notices. -/
theorem removal_mono {s s' : Settings} (hfacade : s'.facade = s.facade)
    (hnotice : s'.noticeMethods = s.noticeMethods) (hwrapper : s'.wrapperMethods = s.wrapperMethods)
    (aliases : List Text) {tokens tokens' : List Notice.Token} (hphrases : s.phrases ⊆ s'.phrases)
    (htokens : s.activeTokens tokens ⊆ s'.activeTokens tokens') :
    (∀ x : Stmt, (Judge.ofSettings s aliases tokens).classify x = .remove →
      (Judge.ofSettings s' aliases tokens').classify x = .remove) ∧
    ∀ c : Config, c.settings.configAware = false → ∀ (e e' : Entry) (source : Text) (p : Program),
      (c.prune e source p).edits = (c.prune e' source p).edits ∧
        (c.prune e source p).removed = (c.prune e' source p).removed := by
  refine ⟨fun x hx => ?_, fun c hc e e' source p => ?_⟩
  · rw [Judge.classify_eq_remove_iff] at hx ⊢
    exact Judge.inspect_mono
      (within_ofSettings hfacade hnotice hwrapper (List.Subset.refl aliases) hphrases htokens) x hx
  · have hjudge : c.judge e p = c.judge e' p := ofSettings_eq_of_phrasesOnly hc ..
    rw [Config.prune, Config.prune, hjudge]
    exact ⟨rfl, rfl⟩

/-- A wrapper around a notice: it goes for its phrase alone, so it goes too if the names of the entry count. -/
theorem removal_mono_sample :
    let source := Text.ofString ("<?php\nclass A \x7b function f() \x7b " ++
      "Deprecation::withSuppressedNotice(function () \x7b Deprecation::notice('renamed to B'); \x7d); \x7d \x7d")
    let s : Settings := { phrases := [.ofString "renamed to"], configAware := false }
    let e : Entry := ⟨.ofString "A", [], .ofString "B", .ofString "a.php", .ofString "b.php"⟩
    let e' : Entry := ⟨.ofString "C", [], .ofString "D", .ofString "c.php", .ofString "d.php"⟩
    s.phrases ⊆ ({} : Settings).phrases ∧ s.activeTokens (tokensOf e) ⊆ ({} : Settings).activeTokens (tokensOf e) ∧
    ∃ p, parse? source = some p ∧ (∃ l ∈ visitedLists (fun _ => false) p, ∃ x ∈ l.statements,
      (Judge.ofSettings s [] (tokensOf e)).classify x = .remove ∧
      (Judge.ofSettings {} [] (tokensOf e)).classify x = .remove) ∧
      (Config.prune { settings := s } e source p).removed = 1 ∧
      (Config.prune { settings := s } e' source p).removed = 1 := by
  intro source s e e'
  have hphrases : s.phrases ⊆ ({} : Settings).phrases := by decide
  have htokens : s.activeTokens (tokensOf e) ⊆ ({} : Settings).activeTokens (tokensOf e) := by decide
  obtain ⟨hmono, hsame⟩ := @removal_mono s {} rfl rfl rfl [] _ _ hphrases htokens
  have h : ((parse? source).any fun p => (visitedLists (fun _ => false) p).any (fun l => l.statements.any fun x =>
      (Judge.ofSettings s [] (tokensOf e)).classify x == .remove) &&
      (Config.prune { settings := s } e source p).removed == 1) = true := by decide +kernel
  obtain ⟨p, hp, h⟩ := (Option.any_eq_true _ _).mp h
  obtain ⟨hx, hremoved⟩ := Bool.and_eq_true_iff.mp h
  obtain ⟨l, hl, hx⟩ := List.any_eq_true.mp hx
  obtain ⟨x, hxl, hx⟩ := List.any_eq_true.mp hx
  rw [beq_iff_eq] at hx hremoved
  exact ⟨hphrases, htokens, p, hp, ⟨l, hl, x, hxl, hx, hmono x hx⟩, hremoved,
    (hsame { settings := s } rfl e e' source p).2.symm.trans hremoved⟩

end Polyfill
