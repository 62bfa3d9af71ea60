import Polyfill.Tool.Print
import Polyfill.Tool.Script.Condition
import Polyfill.Tool.Script.Read
import Polyfill.Tool.Utility

/-! # Activities of a shell

An activity changes the state of a shell and goes on, or jumps: out of a loop, out of a function, out of the
script. The commands in this module are those that run no script of their own.

* `Activity.command?`: what a command of the shell does. -/

namespace Polyfill.Tool

/-- A way to go on other than with the next command. -/
inductive Jump where
  /-- Leave the given number of loops. -/
  | leave (loops : Nat)
  /-- Go on with the next round of the loop around the given number of loops. -/
  | again (loops : Nat)
  /-- Leave the function. -/
  | back
  /-- End the script. -/
  | exit
  /-- The shell with the given number gets a signal that ends it. -/
  | killed (identity : Nat) (signal : Signal)
  deriving DecidableEq

/-- An activity of a shell. -/
abbrev Activity := ExceptT Jump (StateM Shell)

namespace Activity

/-- Set the code of the last command. -/
def setCode (code : Nat) : Activity Unit := modify fun s => { s with code }

/-- The code of the last command. -/
def lastCode : Activity Nat := return (← get).code

/-- The code of an error that ends the script. -/
def errorCode : Nat := 2

/-- End the script because of an error. -/
def abort {α : Type} : Activity α := do
  setCode errorCode
  throw .exit

/-- Print. -/
def print (t : Text) : Activity Unit := modify fun s => s.print t

/-- Run an activity and see whether it jumps. -/
def attempt {α : Type} (act : Activity α) : Activity (Except Jump α) := ExceptT.lift act.run

/-- Run an activity that keeps its changes to itself, apart from those of the disk, the streams and the
code. A signal reaches the shell all the same. -/
def separately (act : Activity Unit) : Activity Unit := do
  let before ← get
  modify fun s => { s with traps := [] }
  let result ← attempt act
  let after ← get
  set { before with disk := after.disk, output := after.output, input := after.input, code := after.code }
  match result with
  | .error (.killed identity signal) => throw (.killed identity signal)
  | _ => pure ()

/-- Run an activity inside one more loop. -/
def inLoop (act : Activity Unit) : Activity Unit := do
  modify fun s => { s with loops := s.loops + 1 }
  let result ← attempt act
  modify fun s => { s with loops := s.loops - 1 }
  match result with
  | .ok () => pure ()
  | .error j => throw j

/-- What an activity prints. -/
def captured (act : Activity Unit) : Activity Text := do
  let before ← get
  set (({ before with output := [] } : Shell).withSink 1 .output)
  separately act
  let after ← get
  set ({ after with output := before.output, sinks := before.sinks } : Shell)
  return after.output

/-! ### Numbers and signals -/

/-- The number that digits write, none if there is another byte. -/
def number? (t : Text) : Option Nat :=
  if !t.isEmpty && t.all isDigit then some (readDigits 10 t) else none

/-- The name of a signal in a script. The signals without a name are counted from the first or the last
of them, and one has no name here. -/
def signalName (s : Signal) : Text :=
  let first := 34
  if s.number == 16 then []
  else if s.number < first then Text.ofString s.name
  else if s.number == first then Text.ofString "RTMIN"
  else if s.number < 50 then Text.ofString s!"RTMIN+{s.number - first}"
  else if s.number < Signal.last then Text.ofString s!"RTMAX-{Signal.last - s.number}"
  else Text.ofString "RTMAX"

/-- The signal that an option names, by number or by name. -/
def signal? (option : Text) : Option Signal :=
  Signal.all.find? fun s =>
    number? option == some s.number ||
      (!option.isEmpty && Text.sameIgnoringCase option (signalName s))

/-- The name of the end of a shell among the occasions for a trap. -/
def exitName : Text := Text.ofString "EXIT"

/-- The name of an occasion for a trap. -/
def occasion? (t : Text) : Option Text :=
  if number? t == some 0 || Text.sameIgnoringCase t exitName then some exitName
  else (signal? t).map signalName

/-- Where a signal goes that a command sends. -/
structure Sending where
  /-- The signal, none if it only asks whether there is somebody. -/
  signal : Option Signal
  targets : List Text

/-- What the arguments of `kill` ask for. -/
def sending? (arguments : List Text) : Option Sending :=
  let named (option : Text) (targets : List Text) : Option Sending :=
    if number? option == some 0 then some ⟨none, targets⟩
    else (signal? option).map fun s => ⟨some s, targets⟩
  match arguments with
  | flag :: option :: targets =>
    if flag.display = "-s" then
      named option (if targets.head? == some (Text.ofString "--") then targets.drop 1 else targets)
    else if flag.display = "--" then some ⟨some .terminate, option :: targets⟩
    else if flag.startsWith "-" then named (flag.drop 1) (option :: targets)
    else some ⟨some .terminate, flag :: option :: targets⟩
  | [target] => if target.startsWith "-" then none else some ⟨some .terminate, [target]⟩
  | [] => none

/-- The signal that a shell gets from itself or a shell it runs; the first shell has the number
`lowest`. -/
def received (lowest : Nat) (s : Shell) (target : Text) : Option Nat :=
  (number? target).filter fun n => lowest ≤ n && n ≤ s.identity

/-! ### Variables -/

/-- The name and the value in an argument that assigns. -/
def assignment? (t : Text) : Option (Text × Text) :=
  let name := t.takeWhile (· != 0x3D)
  if name.length < t.length then some (name, t.drop (name.length + 1)) else none

/-- The text is the name of a variable. -/
def isName (t : Text) : Bool := t.head?.any Script.isNameStart && t.all Script.isNameByte

/-- Make the assignments among the arguments of a command that declares variables, and do what it has to do
with each variable before that. -/
def declare (arguments : List Text) (prepare : Text → Shell → Shell) : Activity Unit := do
  for a in arguments.filter (!·.startsWith "-") do
    let name := ((assignment? a).map (·.1)).getD a
    if !isName name then abort
    modify (prepare name)
    match assignment? a with
    | some (_, value) => modify fun s => s.assign name value
    | none => pure ()
  setCode 0

/-- Give a variable back its value after the function. -/
def makeLocal (name : Text) (s : Shell) : Shell :=
  { s with outerValues := s.outerValues.map ((name, s.variableValue? name) :: ·) }

/-- Turn the options of the shell with the given letters on or off. -/
def setOptions (isOn : Bool) (letters : Text) : Activity Unit := do
  if !letters.all (Text.ofString "aefnuvxbmC").contains then abort
  if letters.contains 0x65 then modify fun s => { s with isStrict := isOn }
  if letters.contains 0x75 then modify fun s => { s with demandsValues := isOn }

/-- The letter of an option that is given by its name. -/
def optionLetter (name : Text) : Text :=
  match name.display with
  | "errexit" => Text.ofString "e"
  | "nounset" => Text.ofString "u"
  | "xtrace" | "noglob" | "verbose" | "allexport" | "noclobber" => []
  | _ => name

/-- Set the arguments of the shell. -/
def setParameters (arguments : List Text) : Activity Unit :=
  modify fun s => { s with parameters := s.parameters.take 1 ++ arguments }

/-- Set the options and the arguments of the shell. -/
def setArguments : List Text → Activity Unit
  | [] => setCode 0
  | [a] => setOne a []
  | a :: b :: rest => do
    if a.display = "-o" || a.display = "+o" then
      setOptions (a.startsWith "-") (optionLetter b)
      setArguments rest
    else if (a.startsWith "-" || a.startsWith "+") && a.length > 1 && a.display != "--" then
      setOptions (a.startsWith "-") (a.drop 1)
      setArguments (b :: rest)
    else setOne a (b :: rest)
where
  /-- Take an argument with those behind it. -/
  setOne (a : Text) (rest : List Text) : Activity Unit := do
    if a.display = "--" then setParameters rest
    else if (a.startsWith "-" || a.startsWith "+") && a.length > 1 then
      setOptions (a.startsWith "-") (a.drop 1)
    else setParameters (a :: rest)
    setCode 0

/-- Read a line into variables. The last of them takes what is left of it. -/
def readLine (names : List Text) : Activity Unit := do
  let s ← get
  let line := s.input.takeWhile (· != 0x0A)
  let isWhole := line.length < s.input.length
  set ({ s with input := s.input.drop (line.length + 1) } : Shell)
  let isSeparator (b : UInt8) : Bool := s.separators.contains b
  let rec fill : List Text → Text → Activity Unit
    | [], _ => pure ()
    | [name], t => modify fun s => s.assign name (t.reverse.dropWhile isSeparator).reverse
    | name :: more, t => do
      let value := t.takeWhile (!isSeparator ·)
      modify fun s => s.assign name value
      fill more ((t.drop value.length).dropWhile isSeparator)
  fill names (line.dropWhile isSeparator)
  setCode (if isWhole then 0 else 1)

/-! ### Commands -/

/-- The largest number that a command of the shell takes. -/
def numberLimit : Nat := 2147483647

/-- The number that a command takes as its only argument, the given one if there is none. -/
def count (arguments : List Text) (default : Nat) : Activity Nat := do
  match arguments with
  | [] => return default
  | first :: _ =>
    match integer? first with
    | some n => if 0 ≤ n && n ≤ numberLimit then return n.toNat else abort
    | none => abort

/-- Go to another directory. -/
def enter (arguments : List Text) : Activity Unit := do
  let s ← get
  match arguments.filter (·.display != "--") with
  | [] => setCode 0
  | p :: _ =>
    if s.disk.isDirectory (s.place p) then set { s with directory := s.place p, code := 0 }
    else setCode errorCode

/-- **What a command of the shell does** that runs no script, if there is one of that name. -/
def command? (name : Text) (arguments : List Text) : Option (Activity Unit) :=
  match name.display with
  | "true" | ":" | "wait" | "umask" | "times" | "hash" => some (setCode 0)
  | "false" => some (setCode 1)
  | "echo" => some do
    print (echo arguments)
    setCode 0
  | "printf" => some do
    match arguments.dropWhile (·.display == "--") with
    | [] => setCode errorCode
    | format :: more =>
      match formatted format more with
      | some text =>
        print text
        setCode 0
      | none => setCode errorCode
  | "test" => some do setCode (Script.condition (← get).standpoint arguments)
  | "[" => some do
    if arguments.getLast? = some (Text.ofString "]") then
      setCode (Script.condition (← get).standpoint arguments.dropLast)
    else setCode badCondition
  | "exit" => some do
    setCode ((← count arguments (← lastCode)) % 256)
    throw .exit
  | "return" => some do
    setCode ((← count arguments (← lastCode)) % 256)
    throw .back
  | "break" => some do
    let n ← count arguments 1
    setCode 0
    if (← get).loops != 0 then throw (.leave n)
  | "continue" => some do
    let n ← count arguments 1
    setCode 0
    if (← get).loops != 0 then throw (.again n)
  | "cd" => some (enter arguments)
  | "shift" => some do
    let n ← count arguments 1
    let s ← get
    if s.arguments.length < n then abort
    set { s with parameters := s.parameters.take 1 ++ s.arguments.drop n, code := 0 }
  | "set" => some (setArguments arguments)
  | "unset" => some do
    for a in arguments do modify fun s => (s.forget a).forgetFunction a
    setCode 0
  | "export" => some (declare arguments fun name s => s.share name)
  | "readonly" => some (declare arguments fun _ s => s)
  | "local" => some do
    if (← get).outerValues.isNone then abort
    declare arguments makeLocal
  | "read" => some (readLine (arguments.filter (!·.startsWith "-")))
  | "trap" => some do
    setCode 0
    match arguments.dropWhile (·.display == "--") with
    | action :: occasions =>
      for o in occasions do
        match occasion? o with
        | some name => modify fun s => s.setTrap name action
        | none => setCode 1
    | [] => pure ()
  | _ => none

end Activity

end Polyfill.Tool
