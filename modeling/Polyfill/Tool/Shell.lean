import Polyfill.Disk.Step
import Polyfill.Tool.Arithmetic
import Polyfill.Tool.Pattern
import Polyfill.Tool.Script.Basic
import Polyfill.Tool.Status

/-! # The state of a shell

A shell runs a script. It has variables, functions and arguments, a directory in which its paths begin, and
streams that lead somewhere. The disk is part of its state, since its commands change it. -/

namespace Polyfill.Tool

/-- Where a stream leads. -/
inductive Sink where
  /-- To whoever reads what the shell prints. -/
  | output
  /-- To nobody. -/
  | nowhere
  /-- To the end of a file. -/
  | file (path : Path)
  deriving DecidableEq

/-- The state of a shell. -/
structure Shell where
  disk : Disk
  /-- What was printed so far. -/
  output : Text := []
  /-- What there is to read. -/
  input : Text := []
  /-- Where the two streams that can be written to lead. -/
  sinks : Sink × Sink := (.output, .nowhere)
  /-- The directory in which paths begin. -/
  directory : Path := []
  /-- The variables with their values. -/
  bindings : List (Text × Text) := []
  /-- The variables that the programs of the script get. -/
  exported : List Text := []
  /-- The values that variables get back after the function, if one runs. -/
  outerValues : Option (List (Text × Option Text)) := none
  /-- The number of loops that can be left. -/
  loops : Nat := 0
  functions : List (Text × Command) := []
  /-- The values of `$0`, `$1` and so on. -/
  parameters : List Text := []
  /-- The code of the last command. -/
  code : Nat := 0
  /-- The code of the last script of which the output became a value. -/
  outputCode : Nat := 0
  /-- The number of the shell among the processes. -/
  identity : Nat
  /-- What is done when the shell ends or gets a signal, by the name of the occasion. -/
  traps : List (Text × Text) := []
  /-- A command that fails ends the script. -/
  isStrict : Bool := false
  /-- A parameter without value ends the script. -/
  demandsValues : Bool := false

namespace Shell

/-! ### Paths -/

/-- The disk as the shell sees it. -/
def standpoint (s : Shell) : Standpoint := ⟨s.disk, s.directory⟩

/-- The path from the home directory that a path of a command means. -/
def place (s : Shell) (p : Path) : Path := s.standpoint.place p

/-- The file that takes everything and holds nothing. -/
def nullFile : Path := Text.ofString "/dev/null"

/-- The content of the file at a path. -/
def read (s : Shell) (p : Path) : Except FileError Text :=
  if p = nullFile then .ok [] else s.disk.read (s.place p)

/-! ### Streams -/

/-- Where the stream with the given number leads. -/
def sink (s : Shell) (stream : Nat) : Sink :=
  if stream = 1 then s.sinks.1 else if stream = 2 then s.sinks.2 else .nowhere

/-- The shell with a stream led somewhere. -/
def withSink (s : Shell) (stream : Nat) (k : Sink) : Shell :=
  if stream = 1 then { s with sinks := (k, s.sinks.2) }
  else if stream = 2 then { s with sinks := (s.sinks.1, k) }
  else s

/-- Write to where a stream leads. A file that is gone takes nothing. -/
def write (s : Shell) (stream : Nat) (text : Text) : Shell :=
  match s.sink stream with
  | .output => { s with output := s.output ++ text }
  | .nowhere => s
  | .file p =>
    match s.disk.read p with
    | .error _ => s
    | .ok old => { s with disk := (s.disk.save p (old ++ text)).toOption.getD s.disk }

/-- Print. -/
def print (s : Shell) (text : Text) : Shell := s.write 1 text

/-- Open the file at a path for writing. It is emptied unless text is appended to it. -/
def openFile? (s : Shell) (p : Path) (append : Bool) : Option (Sink × Shell) :=
  if p = nullFile then some (.nowhere, s)
  else
    let old := if append then (s.read p).toOption.getD [] else []
    match s.disk.save (s.place p) old with
    | .error _ => none
    | .ok disk => some (.file (s.place p), { s with disk })

/-! ### Variables -/

/-- The value of a variable. -/
def variableValue? (s : Shell) (name : Text) : Option Text := s.bindings.lookup name

/-- The shell with a value for a variable. -/
def assign (s : Shell) (name value : Text) : Shell :=
  { s with bindings := (name, value) :: s.bindings.filter (·.1 != name) }

/-- The shell without a variable. -/
def forget (s : Shell) (name : Text) : Shell :=
  { s with bindings := s.bindings.filter (·.1 != name) }

/-- The shell with a variable for the programs of the script. -/
def share (s : Shell) (name : Text) : Shell := { s with exported := name :: s.exported }

/-- The shell with the given values for variables, the first of two for the same variable last. -/
def restore (s : Shell) (values : List (Text × Option Text)) : Shell :=
  values.foldl (fun s (name, value) => (value.map (s.assign name)).getD (s.forget name)) s

/-- The shell without a function. -/
def forgetFunction (s : Shell) (name : Text) : Shell :=
  { s with functions := s.functions.filter (·.1 != name) }

/-- The shell with an action for an occasion; a dash stands for the usual one. -/
def setTrap (s : Shell) (occasion action : Text) : Shell :=
  let others := s.traps.filter (·.1 != occasion)
  { s with traps := if action.display = "-" then others else (occasion, action) :: others }

/-- The decimal digits of a number. -/
def digits (n : Nat) : Text := Text.ofString (toString n)

/-- The arguments of the script. -/
def arguments (s : Shell) : List Text := s.parameters.drop 1

/-- The bytes that separate the words of a value, the first of which joins arguments. -/
def separators (s : Shell) : Text := (s.variableValue? (Text.ofString "IFS")).getD (Text.ofString " \t\n")

/-- The arguments of the script as one text. -/
def joinedArguments (s : Shell) : Text := (s.separators.take 1).intercalate s.arguments

/-- The value of a parameter. -/
def value? (s : Shell) (name : Text) : Option Text :=
  match name with
  | [0x24] => some (digits s.identity)
  | [0x3F] => some (digits s.code)
  | [0x23] => some (digits s.arguments.length)
  | [0x21] => none
  | [0x2D] => some (if s.isStrict then Text.ofString "e" else [])
  | [0x40] | [0x2A] => if s.arguments.isEmpty then none else some s.joinedArguments
  | _ => if name.all isDigit then s.parameters[readDigits 10 name]? else s.variableValue? name

end Shell

/-! ### Words with values -/

/-- A step in the value of a word. -/
inductive Mark where
  /-- A byte that was written in the script. -/
  | written (b : UInt8)
  /-- A byte of a value, at which the word can be split. -/
  | valued (b : UInt8)
  | quoted (b : UInt8)
  /-- Something quoted, perhaps without a byte. -/
  | presence
  /-- The end of an argument and the start of the next one. -/
  | border
  deriving DecidableEq

namespace Mark

/-- The marks of a value. -/
def ofValue (isQuoted : Bool) (t : Text) : List Mark :=
  if isQuoted then presence :: t.map quoted else t.map valued

/-- The marked byte of a mark. -/
def byte? : Mark → Option (UInt8 × Bool)
  | written b | valued b => some (b, false)
  | quoted b => some (b, true)
  | presence => none
  | border => some (0x20, false)

/-- The value of a word that is not split. -/
def marked (ms : List Mark) : Marked := ms.filterMap byte?

/-- The text of a word that is not split. -/
def text (ms : List Mark) : Text := (marked ms).text

/-- The mark ends a word; `separators` are the bytes that do so in a value. -/
def isBorder (separators : Text) : Mark → Bool
  | border => true
  | valued b => separators.contains b
  | _ => false

/-- The words a value is split into, some of them empty. -/
def split (separators : Text) : List Mark → List (List Mark)
  | [] => [[]]
  | m :: ms =>
    match split separators ms with
    | [] => [[m]]
    | word :: more =>
      if m.isBorder separators then [] :: word :: more else (m :: word) :: more

/-- The words a value is split into. -/
def fields (separators : Text) (ms : List Mark) : List Marked :=
  ((split separators ms).filter (!·.isEmpty)).map marked

end Mark

end Polyfill.Tool
