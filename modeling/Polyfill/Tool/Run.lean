import Polyfill.Tool.Activity

/-! # Running tools

The disk knows some programs, so that a run with a cleanup can be followed to its end: conditions, the
utilities, and `sh` with a script. Every other program is missing. A script runs in at most `stepLimit`
nested or repeated steps.

* `Tool.run`: what a program does. -/

namespace Polyfill.Tool

/-- What a program works on: the disk and what it printed. -/
structure Scene where
  disk : Disk
  output : Text := []

/-- The number of the first shell among the processes. -/
def firstIdentity : Nat := 4711

open Activity

/-! ### Parts of a run -/

/-- The marks of the arguments of a script, each of them on its own. -/
def argumentMarks (isQuoted : Bool) (arguments : List Text) : List Mark :=
  [Mark.border].intercalate (arguments.map (Mark.ofValue isQuoted))

/-- The marks of a word that takes the place of a value. What is not quoted can be split. -/
def substituteMarks (isQuoted : Bool) (ms : List Mark) : List Mark :=
  if isQuoted then ms
  else ms.map fun
    | .written b => .valued b
    | m => m

/-- The text without the ends of lines at its end. -/
def withoutNewlines (t : Text) : Text := (t.reverse.dropWhile (· == 0x0A)).reverse

/-- The marks of a parameter. -/
def parameterMarks (name : Text) (isQuoted : Bool) : Activity (List Mark) := do
  let s ← get
  if name.display = "@" || (name.display = "*" && !isQuoted) then
    return argumentMarks isQuoted s.arguments
  match s.value? name with
  | some value => return Mark.ofValue isQuoted value
  | none => if s.demandsValues && name.display != "*" then abort else return Mark.ofValue isQuoted []

/-- The value of a parameter, empty if it has none. -/
def valueOf (name : Text) : Activity Text := return ((← get).value? name).getD []

/-- Commands after whose failure the shell does not go on. -/
def isSpecial (name : Text) : Bool :=
  [":", ".", "break", "continue", "eval", "exec", "exit", "export", "readonly", "return", "set", "shift",
    "times", "trap", "unset"].contains name.display

/-- The change gives the command something to read. -/
def Redirect.isInput : Redirect → Bool
  | fromFile _ | fromText _ => true
  | _ => false

/-- The name of a program without the directory in which programs stand. -/
def programName (program : Text) : Text :=
  let directories := ["/bin/", "/usr/bin/"].map Text.ofString
  match directories.find? fun d => d.isPrefixOf program with
  | some d => program.drop d.length
  | none => program

/-- The code for a program that is not there, or cannot be run. -/
def missingCode (s : Shell) (program : Text) : Nat :=
  if program.contains Path.slash && s.disk.has (s.place program) then 126 else 127

/-- End a strict script if the last command failed and nobody asked whether it would. -/
def checkCode (isTested : Bool) : Activity Unit := do
  let s ← get
  if s.isStrict && !isTested && s.code != 0 then throw .exit

/-- Send a signal to a shell; `react` runs what the shell has set for the occasion. -/
def send (react : Text → Activity Unit) (signal : Signal) (identity : Nat) : Activity Unit := do
  let s ← get
  match if identity = s.identity then s.traps.lookup (signalName signal) else none with
  | some action => if signal.number == 9 then throw (.killed identity signal) else react action
  | none => if signal.isIgnored then pure () else throw (.killed identity signal)

/-- Send what the arguments of `kill` ask for. -/
def sendAll (react : Text → Activity Unit) (arguments : List Text) : Activity Unit := do
  match sending? arguments with
  | none => setCode errorCode
  | some sending =>
    setCode (if sending.targets.isEmpty then errorCode else 0)
    for target in sending.targets do
      if (number? target).isNone then
        setCode errorCode
        return
      match received firstIdentity (← get) target with
      | none => setCode 1
      | some identity =>
        match sending.signal with
        | none => pure ()
        | some signal => send react signal identity

/-! ### Scripts -/

mutual

/-- The marks of a piece. -/
def pieceMarks : (fuel : Nat) → Piece → Activity (List Mark)
  | 0, _ => abort
  | fuel + 1, piece => do
    match piece with
    | .literal text isQuoted =>
      return if isQuoted then .presence :: text.map .quoted else text.map .written
    | .parameter name isQuoted => parameterMarks name isQuoted
    | .measure name isQuoted => return Mark.ofValue isQuoted (Shell.digits (← valueOf name).length)
    | .substitute name how emptyToo word isQuoted =>
      let isThere := match (← get).value? name with
        | some value => !(emptyToo && value.isEmpty)
        | none => false
      match how, isThere with
      | .instead, false => return Mark.ofValue isQuoted []
      | .instead, true | .fallback, false => return substituteMarks isQuoted (← wordMarks fuel word)
      | .demand, false => abort
      | .assign, false =>
        let value := Mark.text (← wordMarks fuel word)
        modify fun s => s.assign name value
        return Mark.ofValue isQuoted value
      | _, true => parameterMarks name isQuoted
    | .trim name atFront isLongest pattern isQuoted =>
      let p := Pattern.ofMarked (Mark.marked (← wordMarks fuel pattern))
      return Mark.ofValue isQuoted (trimmed p atFront isLongest (← valueOf name))
    | .output body isQuoted =>
      let text ← captured (runAll fuel false body)
      modify fun s => { s with outputCode := s.code }
      return Mark.ofValue isQuoted (withoutNewlines text)
    | .number expression isQuoted =>
      let s ← get
      match arithmetic? (fun name => (s.value? name).getD []) (Mark.text (← wordMarks fuel expression)) with
      | some n => return Mark.ofValue isQuoted n.text
      | none => abort

/-- The marks of a word. -/
def wordMarks : (fuel : Nat) → Word → Activity (List Mark)
  | 0, _ => abort
  | fuel + 1, w => return (← w.mapM (pieceMarks fuel)).flatten

/-- The texts that words stand for. -/
def wordTexts : (fuel : Nat) → List Word → Activity (List Text)
  | 0, _ => abort
  | fuel + 1, ws => do
    let texts ← ws.mapM fun w => do
      let marks ← wordMarks fuel w
      let s ← get
      return (Mark.fields s.separators marks).flatMap (matchingPaths s.disk s.place)
    return texts.flatten

/-- Change a stream, and tell whether that is possible. -/
def redirect : (fuel : Nat) → Redirect → Activity Bool
  | 0, _ => abort
  | fuel + 1, change => do
    match change with
    | .toFile stream path append =>
      let p := Mark.text (← wordMarks fuel path)
      match (← get).openFile? p append with
      | none => return false
      | some (sink, s) =>
        set (s.withSink stream sink)
        return true
    | .copy stream other =>
      let target := Mark.text (← wordMarks fuel other)
      let s ← get
      match number? target with
      | some n => set (s.withSink stream (s.sink n))
      | none => if target.display = "-" then set (s.withSink stream .nowhere) else abort
      return true
    | .fromFile path =>
      let p := Mark.text (← wordMarks fuel path)
      let s ← get
      match s.read p with
      | .ok input =>
        set { s with input }
        return true
      | .error .isDirectory =>
        set { s with input := [] }
        return true
      | .error _ => return false
    | .fromText text =>
      let input := Mark.text (← wordMarks fuel text)
      modify fun s => { s with input }
      return true

/-- Run an activity with changes of its streams; `failed` runs in its place if one of them is not
possible. -/
def redirected : (fuel : Nat) → List Redirect → (act failed : Activity Unit) → Activity Unit
  | 0, _, _, _ => abort
  | fuel + 1, changes, act, failed => do
    let before ← get
    let results ← changes.mapM (redirect fuel)
    let restore : Activity Unit := modify fun s => {
      s with
      sinks := before.sinks
      input := if changes.any (·.isInput) then before.input else s.input }
    if results.all id then
      match ← attempt act with
      | .ok () => restore
      | .error j =>
        restore
        throw j
    else
      restore
      failed

/-- Run a script given as text. -/
def evaluate : (fuel : Nat) → (isTested : Bool) → Text → Activity Unit
  | 0, _, _ => abort
  | fuel + 1, isTested, t => do
    let script := Script.read t
    setCode 0
    for line in script.lines do runAll fuel isTested line
    if !script.isWhole then abort

/-- Run a shell with a script and its parameters. -/
def shell : (fuel : Nat) → Text → List Text → Activity Status
  | 0, _, _ => abort
  | fuel + 1, script, parameters => do
    let outer ← get
    set {
      outer with
      parameters
      identity := outer.identity + 1
      bindings := outer.bindings.filter (outer.exported.contains ·.1)
      functions := []
      traps := []
      outerValues := none
      loops := 0
      code := 0 }
    let result ← attempt (evaluate fuel false script)
    let result ← match result with
      | .error (.killed _ _) => pure result
      | _ =>
        match (← get).traps.lookup exitName with
        | none => pure result
        | some action =>
          let code ← lastCode
          let ending ← attempt do
            evaluate fuel false action
            setCode code
          pure ending
    let inner ← get
    set { outer with disk := inner.disk, output := inner.output, input := inner.input }
    match result with
    | .error (.killed identity signal) =>
      if identity = inner.identity then return .killed signal else throw (.killed identity signal)
    | _ => return .exited inner.code

/-- Run a program inside a script. -/
def program : (fuel : Nat) → (name : Text) → List Text → Activity Unit
  | 0, _, _ => abort
  | fuel + 1, name, arguments => do
    if name.display = "sh" || name.display = "dash" then
      match arguments with
      | flag :: text :: parameters =>
        if flag.display = "-c" then setCode (← shell fuel text parameters).code else setCode errorCode
      | _ => setCode errorCode
    else
      match utility? name with
      | some u =>
        let (code, s) := u.call arguments (← get)
        set { s with code }
      | none => setCode (missingCode (← get) name)

/-- Run a command, given its name and its arguments. -/
def call : (fuel : Nat) → (isTested : Bool) → (name : Text) → List Text → Activity Unit
  | 0, _, _, _ => abort
  | fuel + 1, isTested, name, arguments => do
    let s ← get
    match if isSpecial name then none else s.functions.lookup name with
    | some body =>
      set { s with parameters := s.parameters.take 1 ++ arguments, outerValues := some [], loops := 0 }
      let result ← attempt (runOne fuel isTested body)
      modify fun after => {
        after.restore (after.outerValues.getD []) with
        parameters := s.parameters
        outerValues := s.outerValues
        loops := s.loops }
      match result with
      | .ok () | .error .back => pure ()
      | .error j => throw j
    | none =>
      match name.display, arguments with
      | "eval", _ => evaluate fuel isTested ([0x20].intercalate arguments)
      | "exec", command :: rest =>
        call fuel isTested command rest
        throw .exit
      | "exec", [] => setCode 0
      | "command", command :: rest => call fuel isTested command rest
      | "kill", _ => sendAll (evaluate fuel false) arguments
      | ".", file :: _ =>
        match s.read file with
        | .ok text => evaluate fuel isTested text
        | .error _ => abort
      | _, _ =>
        match command? (programName name) arguments with
        | some act => act
        | none => program fuel (programName name) arguments

/-- Run commands one after the other. -/
def runAll : (fuel : Nat) → (isTested : Bool) → List Command → Activity Unit
  | 0, _, _ => abort
  | fuel + 1, isTested, commands => do
    for c in commands do runOne fuel isTested c

/-- Run a loop that has run its body with the given code. -/
def repeated : (fuel : Nat) → (isTested untilSuccess : Bool) → (test body : List Command) →
    (code : Nat) → Activity Unit
  | 0, _, _, _, _, _ => abort
  | fuel + 1, isTested, untilSuccess, test, body, code => do
    runAll fuel true test
    if ((← lastCode) == 0) == untilSuccess then setCode code
    else
      match ← attempt (runAll fuel isTested body) with
      | .ok () => repeated fuel isTested untilSuccess test body (← lastCode)
      | .error (.leave loops) => if 1 < loops then throw (.leave (loops - 1))
      | .error (.again loops) =>
        if 1 < loops then throw (.again (loops - 1))
        else repeated fuel isTested untilSuccess test body 0
      | .error j => throw j

/-- Run a body for each of the values of a variable. -/
def forEach : (fuel : Nat) → (isTested : Bool) → (name : Text) → (values : List Text) →
    (body : List Command) → Activity Unit
  | 0, _, _, _, _ => abort
  | _, _, _, [], _ => pure ()
  | fuel + 1, isTested, name, value :: more, body => do
    modify fun s => s.assign name value
    match ← attempt (runAll fuel isTested body) with
    | .ok () => forEach fuel isTested name more body
    | .error (.leave loops) => if 1 < loops then throw (.leave (loops - 1))
    | .error (.again loops) =>
      if 1 < loops then throw (.again (loops - 1)) else forEach fuel isTested name more body
    | .error j => throw j

/-- Run the first arm that has a pattern for the text. -/
def selectArm : (fuel : Nat) → (isTested : Bool) → Text → List Arm → Activity Unit
  | 0, _, _, _ => abort
  | _, _, _, [] => pure ()
  | fuel + 1, isTested, text, .mk patterns body :: more => do
    let accepted ← patterns.mapM fun w => do
      return (Pattern.ofMarked (Mark.marked (← wordMarks fuel w))).accepts text
    if accepted.any id then runAll fuel isTested body else selectArm fuel isTested text more

/-- Run a simple command. -/
def runSimple : (fuel : Nat) → (isTested : Bool) → List Assignment → List Word → List Redirect →
    Activity Unit
  | 0, _, _, _, _ => abort
  | fuel + 1, isTested, assignments, words, changes => do
    modify fun s => { s with outputCode := 0 }
    let texts ← wordTexts fuel words
    let before ← get
    let assignAll : Activity Unit := do
      for a in assignments do
        let .mk name word := a
        let value := Mark.text (← wordMarks fuel word)
        modify fun s => s.assign name value
    match texts with
    | [] =>
      redirected fuel changes (pure ()) (modify fun s => { s with outputCode := errorCode })
      assignAll
      modify fun s => { s with code := s.outputCode }
    | name :: arguments =>
      if name.display = "exec" && arguments.isEmpty then
        if (← changes.mapM (redirect fuel)).all id then setCode 0 else abort
      else
        redirected fuel changes (do
          assignAll
          let isLasting := assignments.isEmpty || isSpecial name
          if !isLasting then modify fun s => assignments.foldl (fun s (.mk name _) => s.share name) s
          call fuel isTested name arguments
          if !isLasting then
            modify fun s => { s with bindings := before.bindings, exported := before.exported })
          (if isSpecial name then abort else setCode errorCode)

/-- Run a command. In a test a failure is no reason to end the script. -/
def runOne : (fuel : Nat) → (isTested : Bool) → Command → Activity Unit
  | 0, _, _ => abort
  | fuel + 1, isTested, command => do
    match command with
    | .simple assignments words changes =>
      runSimple fuel isTested assignments words changes
      checkCode isTested
    | .redirected body changes =>
      redirected fuel changes (runOne fuel isTested body) (setCode errorCode)
      checkCode isTested
    | .group body => runAll fuel isTested body
    | .enclosed body =>
      separately (runAll fuel isTested body)
      checkCode isTested
    | .negated body =>
      runOne fuel true body
      setCode (if (← lastCode) == 0 then 1 else 0)
    | .both first second =>
      runOne fuel true first
      if (← lastCode) == 0 then runOne fuel isTested second
    | .either first second =>
      runOne fuel true first
      if (← lastCode) != 0 then runOne fuel isTested second
    | .piped first second =>
      let text ← captured (runOne fuel isTested first)
      let before ← get
      set { before with input := text }
      separately (runOne fuel isTested second)
      modify fun s => { s with input := before.input }
      checkCode isTested
    | .detached body =>
      separately (runOne fuel true body)
      setCode 0
    | .choice test yes no =>
      runAll fuel true test
      if (← lastCode) == 0 then runAll fuel isTested yes
      else
        setCode 0
        runAll fuel isTested no
    | .loop untilSuccess test body => inLoop (repeated fuel isTested untilSuccess test body 0)
    | .each name words body =>
      let values ← match words with
        | some ws => wordTexts fuel ws
        | none => pure (← get).arguments
      setCode 0
      inLoop (forEach fuel isTested name values body)
    | .select word arms =>
      let text := Mark.text (← wordMarks fuel word)
      setCode 0
      selectArm fuel isTested text arms
    | .define name body =>
      modify fun s => { (s.forgetFunction name) with functions := (name, body) :: s.functions, code := 0 }

end

/-! ### Programs -/

/-- The number of nested and repeated steps of a script. -/
def stepLimit : Nat := 100000

/-- The failure to start a program that may not be run. -/
def permissionDenied : FileError := .other "Permission denied (os error 13)"

/-- The failure to start a program with a name or an argument that holds a zero byte. -/
def zeroByteGiven : FileError := .other "nul byte found in provided data"

/-- The options of a shell that come before its script, and what follows them. -/
def shellOptions : List Text → Option (Text × Text × List Text)
  | flag :: rest =>
    if flag.startsWith "-" && flag.contains 0x63 then
      match rest with
      | script :: parameters => some (flag.drop 1, script, parameters)
      | [] => none
    else if flag.startsWith "-" && flag.length > 1 then
      (shellOptions rest).map fun (letters, more) => (flag.drop 1 ++ letters, more)
    else none
  | [] => none

/-- What a shell does with its arguments. -/
def startShell (s : Scene) (arguments : List Text) : Status × Scene :=
  match shellOptions arguments with
  | none => (.exited errorCode, s)
  | some (letters, script, parameters) =>
    let start : Shell := {
      disk := s.disk
      output := s.output
      identity := firstIdentity - 1
      isStrict := letters.contains 0x65
      demandsValues := letters.contains 0x75 }
    match (shell stepLimit script parameters).run start with
    | (.ok status, after) => (status, ⟨after.disk, after.output⟩)
    | (.error _, after) => (.exited errorCode, ⟨after.disk, after.output⟩)

/-- **What a program does**: how it ends and what is left, or why it cannot start. -/
def run (s : Scene) (program : Text) (arguments : List Text) : Except FileError (Status × Scene) :=
  let name := programName program
  let state : Shell := { disk := s.disk, output := s.output, identity := firstIdentity }
  if (program :: arguments).any (·.contains 0) then .error zeroByteGiven
  else
    match name.display with
    | "true" => .ok (.exited 0, s)
    | "false" => .ok (.exited 1, s)
    | "test" => .ok (.exited (condition state.standpoint arguments), s)
    | "sh" | "dash" => .ok (startShell s arguments)
    | _ =>
      match utility? name with
      | some u =>
        let (code, after) := u.call arguments state
        .ok (.exited code, ⟨after.disk, after.output⟩)
      | none =>
        if program.contains Path.slash then
          match s.disk.find program with
          | .ok _ => .error permissionDenied
          | .error e => .error e
        else .error .notFound

end Polyfill.Tool
