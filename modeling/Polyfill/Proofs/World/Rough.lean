import Polyfill.Proofs.Disk.Step
import Polyfill.Proofs.World

/-! # Steps that break off

A step that is made to fail on a world does nothing. On a machine it can fail late: some of the directories are made
then, or some of the text is in the file. On a *rough* host this happens too: `cut` says of each step how far it comes
if it is to fail. A rough host also gives any names to temporary files.

* `Step.begun`: what a step that breaks off has done.
* `World.rough`: the host on which steps break off. `World.host_eq_rough`: the host of a world is one of these.
* `World.run_of_rough`, `World.Passes`: how a step ends there, and which disks a run goes through. -/

namespace Polyfill

/-- **What a step that breaks off has done**, where `part` says how far it comes. Directories are made from the top, and
a text is written from its beginning. Files are made, moved and discarded whole or not at all. -/
def Step.begun (part : Option Nat) (d : Disk) (s : Step) : Disk :=
  match part, s with
  | some k, createDirectories p => (d.makeDirectories (p.withAncestors.drop k)).2
  | some k, save p content => (Step.run d (.save p (content.take k))).2
  | _, _ => d

namespace World

/-- The result of a step on a disk, where `fault` is the failure it is to meet and `part` how far it comes then. -/
def interrupt (part : Option Nat) (fault : Option FileError) (d : Disk) (s : Step) : Except FileError Unit × Disk :=
  match fault, s with
  | none, _ | some _, .discard _ => s.run d
  | some e, _ => (.error e, s.begun part d)

/-- **A host on which steps break off.** In all else it is the host of a world. -/
def rough (cut : Nat → Option Nat) (names : Path → World → Text) : Host (StateM World) :=
  { host with
    perform := fun s w =>
      let (result, disk) := interrupt (cut w.clock) (w.faults w.clock) w.disk s
      (result, { w with disk, clock := w.clock + 1, history := disk :: w.history })
    freshName := fun directory w => (names directory w, w) }

theorem interrupt_none (fault : Option FileError) (d : Disk) (s : Step) :
    interrupt none fault d s = attempt fault d s := by
  cases fault with
  | none => rfl
  | some e => cases s <;> rfl

/-- **On the host of a world no step breaks off half-way**, and names are free ones. -/
theorem host_eq_rough : host = rough (fun _ => none) fun directory w => (freshName directory w).1 := by
  simp only [rough, interrupt_none]
  rfl

variable {cut : Nat → Option Nat} {names : Path → World → Text} {w w' w'' : World} {s : Step}
  {r : Except FileError Unit}

/-- **A step is carried out, or breaks off with a failure.** To discard a file never fails. -/
theorem interrupt_cases (part : Option Nat) (fault : Option FileError) (d : Disk) (s : Step) :
    interrupt part fault d s = s.run d ∨ (∃ e, interrupt part fault d s = (.error e, s.begun part d)) ∧
      ∀ p, s ≠ .discard p := by
  cases fault with
  | none => exact Or.inl rfl
  | some e =>
    cases s with
    | discard p => exact Or.inl rfl
    | _ => exact Or.inr ⟨⟨e, rfl⟩, by simp⟩

/-- **How a step ends on a rough host.** -/
theorem run_of_rough (h : (rough cut names).perform s w = (r, w')) :
    s.run w.disk = (r, w'.disk) ∨ ((∃ e, r = .error e) ∧ w'.disk = s.begun (cut w.clock) w.disk) ∧
      ∀ p, s ≠ .discard p := by
  have hinterrupt : interrupt (cut w.clock) (w.faults w.clock) w.disk s = (r, w'.disk) := by
    cases h
    rfl
  rcases interrupt_cases (cut w.clock) (w.faults w.clock) w.disk s with hrun | ⟨⟨e, hbegun⟩, hs⟩
  · exact Or.inl (hrun.symm.trans hinterrupt)
  · rw [hbegun] at hinterrupt
    obtain ⟨hr, hdisk⟩ := Prod.mk.inj hinterrupt
    exact Or.inr ⟨⟨⟨e, hr.symm⟩, hdisk.symm⟩, hs⟩

theorem run_of_rough_discard {p : Path} (h : (rough cut names).perform (.discard p) w = (r, w')) :
    Step.run w.disk (.discard p) = (r, w'.disk) := by
  rcases run_of_rough h with hrun | ⟨-, hs⟩
  · exact hrun
  · exact absurd rfl (hs p)

theorem whole_of_rough {changed : Except FileError Disk} (hrun : s.run w.disk = w.disk.orUnchanged changed)
    (hbegun : ∀ part, s.begun part w.disk = w.disk) (h : (rough cut names).perform s w = (r, w')) :
    (∃ e, r = .error e) ∧ w'.disk = w.disk ∨ r = .ok () ∧ changed = .ok w'.disk := by
  rcases run_of_rough h with h | ⟨⟨hr, hdisk⟩, -⟩
  · rw [hrun] at h
    cases changed with
    | error e =>
      obtain ⟨hr, hdisk⟩ := Prod.mk.inj h
      exact Or.inl ⟨⟨e, hr.symm⟩, hdisk.symm⟩
    | ok d =>
      obtain ⟨hr, hdisk⟩ := Prod.mk.inj h
      exact Or.inr ⟨hr.symm, congrArg Except.ok hdisk⟩
  · exact Or.inl ⟨hr, hdisk.trans (hbegun _)⟩

/-- **A step on a world is carried out, or fails and changes nothing.** -/
theorem perform_cases (h : host.perform s w = (r, w')) :
    s.run w.disk = (r, w'.disk) ∨ (∃ e, r = .error e) ∧ w'.disk = w.disk := by
  rw [host_eq_rough] at h
  exact (run_of_rough h).imp_right fun hfailed => hfailed.1

/-! ### The disks of a run -/

/-- **All disks that the run goes through have the property.** -/
def Passes (P : Disk → Prop) (w w' : World) : Prop := ∃ disks, w'.history = disks ++ w.history ∧ ∀ d ∈ disks, P d

namespace Passes

variable {P Q : Disk → Prop}

theorem trans (h : Passes P w w') (h' : Passes P w' w'') : Passes P w w'' := by
  obtain ⟨disks, hhistory, hP⟩ := h
  obtain ⟨disks', hhistory', hP'⟩ := h'
  refine ⟨disks' ++ disks, by rw [hhistory', hhistory, List.append_assoc], fun d hd => ?_⟩
  exact (List.mem_append.mp hd).elim (hP' d) (hP d)

theorem mono (h : Passes P w w') (hPQ : ∀ d, P d → Q d) : Passes Q w w' := by
  obtain ⟨disks, hhistory, hP⟩ := h
  exact ⟨disks, hhistory, fun d hd => hPQ d (hP d hd)⟩

theorem of_rough (h : (rough cut names).perform s w = (r, w')) (hP : P w'.disk) : Passes P w w' := by
  refine ⟨[w'.disk], ?_, by simpa using hP⟩
  cases h
  rfl

end Passes

end World

end Polyfill
