/-! # How a program ends -/

namespace Polyfill.Tool

/-- A signal to a program. -/
structure Signal where
  number : Nat
  /-- The name, without the letters all names begin with; empty if there is none. -/
  name : String := ""
  deriving DecidableEq

namespace Signal

/-- The signals that have names, in the order of their numbers. -/
def named : List Signal :=
  ["HUP", "INT", "QUIT", "ILL", "TRAP", "ABRT", "BUS", "FPE", "KILL", "USR1", "SEGV", "USR2", "PIPE",
    "ALRM", "TERM", "STKFLT", "CHLD", "CONT", "STOP", "TSTP", "TTIN", "TTOU", "URG", "XCPU", "XFSZ",
    "VTALRM", "PROF", "WINCH", "IO", "PWR", "SYS"].mapIdx fun i name => ⟨i + 1, name⟩

/-- The number of the last signal. -/
def last : Nat := 64

/-- All signals. -/
def all : List Signal :=
  named ++ (List.range (last - named.length)).map fun i => { number := named.length + 1 + i }

/-- The signal that asks a program to end. -/
def terminate : Signal := ⟨15, "TERM"⟩

/-- A program that does not expect the signal goes on. -/
def isIgnored (s : Signal) : Bool := ["CHLD", "CONT", "URG", "WINCH"].contains s.name

/-- The wording of a signal. -/
def message (s : Signal) : String :=
  if s.name.isEmpty then s!"signal: {s.number}" else s!"signal: {s.number} (SIG{s.name})"

end Signal

/-- How a program ended. -/
inductive Status where
  | exited (code : Nat)
  | killed (signal : Signal)
  deriving DecidableEq

namespace Status

/-- The program succeeded. -/
def success (s : Status) : Bool := s == exited 0

/-- The code by which a shell knows how a program ended. -/
def code : Status → Nat
  | exited code => code
  | killed signal => 128 + signal.number

/-- The wording of a status. -/
def message : Status → String
  | exited code => s!"exit status: {code}"
  | killed signal => signal.message

end Status

end Polyfill.Tool
