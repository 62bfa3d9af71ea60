import Polyfill.Disk.Path

/-! # The command line

A command line names a verb and its options. Options are recognized first, one after the other; then the
request is put together from them. An option that takes a path wants one that is not empty and does not
begin with a dash, and may be given once, as may a switch. The cleanup takes all that follows it, unless
its one value is attached by an equals sign. How much is logged can be told before and after the verb.

* `Invocation.ofArguments?`: what a command line asks for. -/

namespace Polyfill.Command

/-- An option of a verb. -/
inductive OptionName where
  | config
  | source
  | output
  | report
  | phrasesOnly
  | keepOutput
  | cleanup
  | verbose
  deriving DecidableEq

namespace OptionName

/-- The name on the command line, behind two dashes. -/
def long : OptionName → String
  | config => "config"
  | source => "source"
  | output => "output"
  | report => "report"
  | phrasesOnly => "phrases-only"
  | keepOutput => "keep-output"
  | cleanup => "cleanup"
  | verbose => "verbose"

/-- The option takes no value. -/
def isSwitch (o : OptionName) : Bool := [phrasesOnly, keepOutput, verbose].contains o

/-- The option may be given more than once. -/
def isRepeatable (o : OptionName) : Bool := [cleanup, verbose].contains o

/-- The value can be one of the option. -/
def admits (o : OptionName) (value : Text) : Bool := o == cleanup || !value.isEmpty

end OptionName

/-- What can be done. -/
inductive Verb where
  | generate
  | check
  deriving DecidableEq

namespace Verb

/-- The name on the command line. -/
def name : Verb → String
  | generate => "generate"
  | check => "check"

/-- The options of a verb. -/
def options : Verb → List OptionName
  | generate => [.config, .source, .output, .phrasesOnly, .keepOutput, .report, .cleanup, .verbose]
  | check => [.config, .source, .verbose]

end Verb

/-- The verb with the given name. -/
def verb? (name : Text) : Option Verb :=
  [Verb.generate, Verb.check].find? fun v => Text.ofString v.name == name

/-- An option as it was given. -/
structure Given where
  option : OptionName
  values : List Text
  deriving DecidableEq

/-! ### Recognizing options -/

/-- The argument can be the value of an option in front of it. -/
def canBeValue (argument : Text) : Bool := !argument.startsWith "-" || argument == Text.ofString "-"

/-- How often a group of short options asks for a fuller log, none if it asks for something else. -/
def verboseGroup? (argument : Text) : Option Nat :=
  match argument with
  | 0x2D :: letters =>
    if !letters.isEmpty && letters.all (· == 0x76) then some letters.length else none
  | _ => none

/-- The option behind two dashes and the value attached to it. -/
structure Long where
  option : OptionName
  attached : Option Text
  deriving DecidableEq

/-- The option that an argument names, among those allowed. -/
def long? (allowed : List OptionName) (argument : Text) : Option Long :=
  if argument.startsWith "--" then
    let body : Text := argument.drop 2
    let name := body.takeWhile (· != 0x3D)
    let attached := if body.contains 0x3D then some (body.drop (name.length + 1)) else none
    (allowed.find? fun o => Text.ofString o.long == name).map (⟨·, attached⟩)
  else none

/-- The options that the arguments of a verb give. -/
def recognize? (allowed : List OptionName) : List Text → Option (List Given)
  | [] => some []
  | argument :: rest =>
    if argument = Text.ofString "--" then if rest.isEmpty then some [] else none
    else
      match verboseGroup? argument, long? allowed argument with
      | some n, _ => (recognize? allowed rest).map (List.replicate n ⟨.verbose, []⟩ ++ ·)
      | none, none => none
      | none, some ⟨option, some value⟩ =>
        if option.isSwitch then none else (recognize? allowed rest).map (⟨option, [value]⟩ :: ·)
      | none, some ⟨option, none⟩ =>
        if option.isSwitch then (recognize? allowed rest).map (⟨option, []⟩ :: ·)
        else if option = .cleanup then if rest.isEmpty then none else some [⟨option, rest⟩]
        else
          match rest with
          | [] => none
          | value :: more =>
            if canBeValue value then (recognize? allowed more).map (⟨option, [value]⟩ :: ·) else none

/-! ### Requests -/

/-- The arguments of a run. -/
structure Generate where
  config : Path
  source : Path
  output : Path
  phrasesOnly : Bool
  keepOutput : Bool
  report : Option Path
  cleanup : List Text
  deriving DecidableEq

/-- The arguments of a check. -/
structure Check where
  config : Path
  source : Option Path
  deriving DecidableEq

/-- What is asked for. -/
inductive Request where
  | version
  | generate (arguments : Generate)
  | check (arguments : Check)
  deriving DecidableEq

/-- What a command line asks for, and how often it asks for a fuller log. -/
structure Invocation where
  request : Request
  verbosity : Nat
  deriving DecidableEq

/-- How often an option is given. -/
def timesGiven (gs : List Given) (o : OptionName) : Nat := (gs.filter (·.option == o)).length

/-- Every option is given as often as it may be, with values that it admits. -/
def areProper (gs : List Given) : Bool :=
  gs.all fun g =>
    (g.option.isRepeatable || timesGiven gs g.option == 1) && g.values.all g.option.admits

/-- The values given for an option. -/
def valuesOf (gs : List Given) (o : OptionName) : List Text :=
  (gs.filter (·.option == o)).flatMap (·.values)

/-- The request of a verb with the options given. -/
def request? (gs : List Given) : Verb → Option Request
  | .generate => do
    return .generate {
      config := ← (valuesOf gs .config).head?
      source := ← (valuesOf gs .source).head?
      output := ← (valuesOf gs .output).head?
      phrasesOnly := timesGiven gs .phrasesOnly != 0
      keepOutput := timesGiven gs .keepOutput != 0
      report := (valuesOf gs .report).head?
      cleanup := valuesOf gs .cleanup }
  | .check => do
    return .check {
      config := ← (valuesOf gs .config).head?
      source := (valuesOf gs .source).head? }

/-- What the arguments behind a verb ask for. -/
def invocation? (v : Verb) (verbosity : Nat) (arguments : List Text) : Option Invocation := do
  let gs ← recognize? v.options arguments
  if areProper gs then
    return { request := ← request? gs v, verbosity := verbosity + timesGiven gs .verbose }
  else none

/-- A group of short options that asks for the version, before anything unknown. -/
def asksVersion (argument : Text) : Bool :=
  match argument with
  | 0x2D :: letters => (letters.dropWhile (· == 0x76)).head? == some 0x56
  | _ => false

/-- What the arguments ask for, where `verbosity` was asked for before them. -/
def parse? (verbosity : Nat) : List Text → Option Invocation
  | [] => none
  | argument :: rest =>
    if argument = Text.ofString "--version" || asksVersion argument then
      some { request := .version, verbosity }
    else if argument = Text.ofString "--verbose" then parse? (verbosity + 1) rest
    else
      match verboseGroup? argument, verb? argument with
      | some n, _ => parse? (verbosity + n) rest
      | none, some v => invocation? v verbosity rest
      | none, none => none

/-- **What a command line asks for**, none if it is not understood. -/
def Invocation.ofArguments? (arguments : List Text) : Option Invocation := parse? 0 arguments

end Polyfill.Command
