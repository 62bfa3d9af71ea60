/-! # Scanners

A scanner reads a value from the front of its input and moves on, or fails. The input may be text or
tokens; the loops are the same for every monad that can fail. Every loop takes the number of steps it
may at most make, which its caller reads off the length of the input. -/

namespace Polyfill

/-- A scanner of values over inputs of type `σ`. -/
abbrev Scan (σ : Type) := StateT σ Option

namespace Scan

/-- Monads in which a computation can fail. -/
class Fallible (m : Type → Type) where
  /-- Fail. -/
  refuse : {α : Type} → m α

instance {m : Type → Type} [Alternative m] : Fallible m := ⟨failure⟩

export Fallible (refuse)

variable {m : Type → Type} [Monad m] [Fallible m] {α : Type}

/-- Fail unless the condition holds. -/
def ensure (condition : Bool) : m Unit := if condition then pure () else refuse

/-- Go on with a value, unless there is none. -/
def ofOption : Option α → m α
  | some a => pure a
  | none => refuse

/-- Run `step` as long as it gives something, at most `fuel` times, and collect what it gives. -/
def collect (step : m (Option α)) : (fuel : Nat) → m (List α)
  | 0 => refuse
  | fuel + 1 => do
    match ← step with
    | none => return []
    | some a => return a :: (← collect step fuel)

/-- Run `step` on a value as long as it gives a new one, at most `fuel` times. -/
def iterate (step : α → m (Option α)) : (fuel : Nat) → α → m α
  | 0, _ => refuse
  | fuel + 1, a => do
    match ← step a with
    | none => return a
    | some a' => iterate step fuel a'

end Scan

end Polyfill
