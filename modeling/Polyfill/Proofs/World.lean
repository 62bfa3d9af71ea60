import Polyfill.World

/-! # Runs on a world

What an action does to a world is read off its parts: a run of two actions is a run of the first, followed by one of the
second on the world that the first leaves. Of the questions and changes that the host knows, only a step changes the
disk. -/

namespace Polyfill.World

variable {α β : Type} {w w' : World}

/-- **A run of two actions** is one run after the other. -/
theorem run_bind {x : StateM World α} {f : α → StateM World β} {r : β × World} (h : (x >>= f) w = r) :
    ∃ a w₁, x w = (a, w₁) ∧ f a w₁ = r :=
  ⟨(x w).1, (x w).2, rfl, h⟩

theorem run_pure {a : α} {r : α × World} (h : (pure a : StateM World α) w = r) : r = (a, w) := h.symm

theorem disk_of_emitAll {rs : List Record} {u : Unit} (h : host.emitAll rs w = (u, w')) : w'.disk = w.disk := by
  induction rs generalizing w with
  | nil =>
    cases h
    rfl
  | cons r rs ih => exact (ih (w := { w with log := w.log ++ [r] }) h).trans rfl

theorem read_cases {p : Path} {r : Except FileError Text} (h : host.read p w = (r, w')) :
    w'.disk = w.disk ∧ ∀ content, r = .ok content → w.disk.read p = .ok content := by
  cases h
  refine ⟨rfl, fun content hcontent => ?_⟩
  cases hfault : w.faults w.clock with
  | some e =>
    rw [hfault] at hcontent
    cases hcontent
  | none =>
    rw [hfault] at hcontent
    exact hcontent

theorem readText_cases {p : Path} {r : Except FileError Text} (h : host.readText p w = (r, w')) :
    w'.disk = w.disk ∧ ∀ content, r = .ok content → w.disk.read p = .ok content := by
  obtain ⟨found, w₁, hread, h⟩ := run_bind h
  obtain ⟨hdisk, hfound⟩ := read_cases hread
  cases found with
  | error e =>
    cases h
    exact ⟨hdisk, by simp⟩
  | ok content =>
    cases h
    refine ⟨hdisk, fun content' hcontent => ?_⟩
    split at hcontent
    · cases hcontent
      exact hfound content rfl
    · cases hcontent

end Polyfill.World
