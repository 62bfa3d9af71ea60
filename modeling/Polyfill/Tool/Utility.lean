import Polyfill.Tool.Shell

/-! # Utilities

The programs on files and texts that a script can call. Each of them has the letters of the options it
knows, and an option it does not know makes it fail. What a utility has to say about a failure is not kept.

* `utility?`: the utility of a name. -/

namespace Polyfill.Tool

/-- The arguments of a program, sorted. -/
structure Operands where
  /-- The letters of the options. -/
  letters : Text := []
  operands : List Text := []

namespace Operands

/-- Sort arguments: options come before the argument `--` and begin with a dash. -/
def ofArguments : List Text → Operands
  | [] => {}
  | a :: rest =>
    if a.display = "--" then { operands := rest }
    else
      let more := ofArguments rest
      if a.startsWith "-" && a.length > 1 then { more with letters := a.drop 1 ++ more.letters }
      else { more with operands := a :: more.operands }

/-- The letter is among the options. -/
def has (o : Operands) (letter : Char) : Bool := o.letters.contains letter.val.toUInt8

end Operands

/-- A program that works on the state of the shell and gives its code. -/
structure Utility where
  name : String
  /-- The letters of the options it knows. -/
  letters : String := ""
  /-- The code if an option is not known. -/
  failure : Nat := 1
  run : Operands → Shell → Nat × Shell

/-- Do something with each operand in turn. The code tells whether all went well. -/
def eachOperand (act : Shell → Text → Option Shell) (failure : Nat) (o : Operands) (s : Shell) :
    Nat × Shell :=
  o.operands.foldl (fun (code, s) p =>
    match act s p with
    | some s => (code, s)
    | none => (failure, s)) (0, s)

/-- Do something with each operand, of which there has to be one. -/
def eachOfSome (act : Shell → Text → Option Shell) (o : Operands) (s : Shell) : Nat × Shell :=
  if o.operands.isEmpty then (1, s) else eachOperand act 1 o s

/-- The shell with a changed disk. -/
def Shell.changed? (s : Shell) : Except FileError Disk → Option Shell
  | .ok disk => some { s with disk }
  | .error _ => none

/-! ### Directories and removal -/

/-- The path ends in a name that no entry of a directory has. -/
def endsInDots (p : Path) : Bool :=
  (Path.names p).getLast?.all fun name => name == Path.here || name == Path.up

/-- Remove a file, or with `-r` a tree; with `-f` something missing counts as removed. -/
def remove (o : Operands) (s : Shell) (p : Path) : Option Shell :=
  let target := s.place p
  match s.disk.find target with
  | .error .notFound | .error .notDirectory => if o.has 'f' then some s else none
  | .error _ => none
  | .ok (.file _) => s.changed? (s.disk.removeFile target)
  | .ok .directory =>
    if o.has 'r' || o.has 'R' then
      if endsInDots p then none
      else
        match s.disk.removeTree target with
        | (.ok (), disk) => some { s with disk }
        | (.error _, _) => none
    else if o.has 'd' then s.changed? (s.disk.removeDirectory target)
    else none

/-- Make a directory, or with `-p` all that are missing. -/
def makeDirectory (o : Operands) (s : Shell) (p : Path) : Option Shell :=
  if o.has 'p' then
    match s.disk.makeDirectories (s.place p).withAncestors with
    | (.ok (), disk) => some { s with disk }
    | (.error _, _) => none
  else s.changed? (s.disk.makeDirectory (s.place p))

/-- Make an empty file unless something is there. -/
def touch (o : Operands) (s : Shell) (p : Path) : Option Shell :=
  if s.disk.has (s.place p) || o.has 'c' then some s else s.changed? (s.disk.save (s.place p) [])

/-! ### Copies -/

/-- What stands at a place and below it, with the names that lead there. -/
def Disk.tree (d : Disk) (l : Location) : List (Location × Node) :=
  (d.node? l).toList.map (([], ·)) ++
    (d.entries.filter fun e => Disk.isBelow l e.1).map fun e => (e.1.drop l.length, e.2)

/-- The disk with a tree at a place. -/
def Disk.plant (d : Disk) (l : Location) (tree : List (Location × Node)) : Disk :=
  tree.foldl (fun d (below, n) => d.put (l ++ below) n) d

/-- Copy or move what stands at a path to another path. A directory takes it in under its own name. -/
def transfer (isMove isDeep : Bool) (s : Shell) (source target : Path) : Option Shell := do
  let node ← (s.disk.find (s.place source)).toOption
  let origin ← (s.disk.locate (s.place source)).toOption
  let goal := if s.disk.isDirectory (s.place target) then Path.join target origin.name else target
  let stop ← (s.disk.locate (s.place goal)).toOption
  let there := s.disk.node? stop.location
  if node = .directory && !isDeep then none
  else if origin.location = stop.location || Disk.isBelow origin.location stop.location then none
  else if stop.isSlashed && node != .directory then none
  else if node = .directory && (there.any (· != .directory) ||
    (isMove && !s.disk.isEmptyBelow stop.location)) then none
  else if node != .directory && there = some .directory then none
  else
    let tree := Disk.tree s.disk origin.location
    let kept := if isMove then (s.disk.eraseBelow origin.location).erase origin.location else s.disk
    return { s with disk := Disk.plant kept stop.location tree }

/-- Copy or move all operands but the last to the last one. -/
def transferAll (isMove : Bool) (isDeep : Operands → Bool) (o : Operands) (s : Shell) : Nat × Shell :=
  match o.operands.getLast? with
  | none => (1, s)
  | some target =>
    let sources := o.operands.dropLast
    if sources.isEmpty || (1 < sources.length && !s.disk.isDirectory (s.place target)) then (1, s)
    else eachOperand (transfer isMove (isDeep o) · · target) 1 { o with operands := sources } s

/-! ### Texts -/

/-- The content of an operand, where a dash stands for what there is to read. -/
def content? (s : Shell) (p : Text) : Option Text :=
  if p.display = "-" then some s.input else (s.read p).toOption

/-- Apply a filter to the operands one after the other, or to what there is to read. -/
def filtered (filter : Operands → Text → Text) (o : Operands) (s : Shell) : Nat × Shell :=
  if o.operands.isEmpty then (0, { s.print (filter o s.input) with input := [] })
  else eachOperand (fun s p => (content? s p).map fun t => s.print (filter o t)) 1 o s

/-- Apply a filter to all operands as one text, or to what there is to read. -/
def filteredTogether (filter : Operands → Text → Text) (failure : Nat) (o : Operands) (s : Shell) :
    Nat × Shell :=
  if o.operands.isEmpty then filtered filter o s
  else
    match o.operands.mapM (content? s) with
    | none => (failure, s)
    | some texts => (0, s.print (filter o texts.flatten))

/-- The lines of a text in order. -/
def sorted (o : Operands) (t : Text) : Text :=
  let lines := (Text.lines t).mergeSort fun a b => decide (a ≤ b)
  let kept := if o.has 'u' then lines.eraseDups else lines
  Text.ofLines (if o.has 'r' then kept.reverse else kept)

/-- The number of lines, words or bytes of a text. -/
def count (o : Operands) (t : Text) : Nat :=
  if o.has 'l' then t.count 0x0A
  else if o.has 'w' then
    ((Mark.split (Text.ofString " \t\n") (Mark.ofValue false t)).filter (!·.isEmpty)).length
  else t.length

/-- Print the count of each operand with its name, or that of what there is to read. -/
def countAll (o : Operands) (s : Shell) : Nat × Shell :=
  if o.operands.isEmpty then
    (0, { s.print (Shell.digits (count o s.input) ++ [0x0A]) with input := [] })
  else
    eachOperand (fun s p => (content? s p).map fun t =>
      s.print (Shell.digits (count o t) ++ 0x20 :: p ++ [0x0A])) 1 o s

/-- Print the names in each operand, or the operand itself if it is a file. -/
def list (o : Operands) (s : Shell) (p : Path) : Option Shell :=
  match s.disk.find (s.place p) with
  | .error _ => none
  | .ok (.file _) => some (s.print (p ++ [0x0A]))
  | .ok .directory =>
    let names := (namesAt s.disk (s.place p)).filter fun name =>
      o.has 'a' || o.has 'A' || name.head? != some 0x2E
    let dots := if o.has 'a' then [Path.here, Path.up] else []
    some (s.print (Text.ofLines (dots ++ names)))

/-- List the operands, or the directory of the shell if there are none. -/
def listAll (o : Operands) (s : Shell) : Nat × Shell :=
  eachOperand (list o) 2
    (if o.operands.isEmpty then { o with operands := [Path.here] } else o) s

/-- The last name of a path, without an ending if one is given. -/
def baseName (p ending : Text) : Text :=
  let name := (Path.names p).getLast?.getD (p.take 1)
  if ending.isSuffixOf name && ending != name then name.take (name.length - ending.length) else name

/-- The path without its last name. -/
def directoryName (p : Path) : Path :=
  let trimmed := (p.reverse.dropWhile (· == Path.slash)).reverse
  let parent := (trimmed.reverse.dropWhile (· != Path.slash)).dropWhile (· == Path.slash)
  if !parent.isEmpty then parent.reverse
  else if Path.isAbsolute p then [Path.slash]
  else Path.here

/-- A utility that takes a number of lines, given by an option, from one end of a text. -/
def linesUtility (name : String) (take : Nat → List Text → List Text) : Utility where
  name
  letters := "n0123456789"
  run o :=
    let digits := o.letters.filter isDigit
    let isApart := digits.isEmpty && o.has 'n'
    let number := if isApart then o.operands.headD [] else digits
    let n := if number.isEmpty then 10 else readDigits 10 number
    let files := if isApart then o.operands.drop 1 else o.operands
    filtered (fun _ t => keepLines (take n) t) { o with operands := files }
where
  /-- Take lines from a text of which the last line may have no end. -/
  keepLines (take : List Text → List Text) (t : Text) : Text :=
    let lines := take (Text.lines t)
    let text := Text.ofLines lines
    let isOpen := t.getLast?.any (· != 0x0A) && lines.getLast? == (Text.lines t).getLast?
    if isOpen then text.dropLast else text

/-- Print the numbers from one to another. -/
def printNumbers (o : Operands) (s : Shell) : Nat × Shell :=
  let numbers := o.operands.map fun t => readDigits 10 (t.filter isDigit)
  let range (first last : Nat) : Nat × Shell :=
    (0, s.print (Text.ofLines ((List.range (last + 1 - first)).map fun i => Shell.digits (first + i))))
  match numbers with
  | [last] => range 1 last
  | [first, last] => range first last
  | _ => (1, s)

/-- The utilities. -/
def utilities : List Utility := [
  { name := "rm", letters := "rRfdvi",
    run := fun o s => if o.operands.isEmpty then (if o.has 'f' then 0 else 1, s)
      else eachOperand (remove o) 1 o s },
  { name := "mkdir", letters := "pv", run := fun o => eachOfSome (makeDirectory o) o },
  { name := "rmdir", letters := "v",
    run := fun o => eachOfSome (fun s p => s.changed? (s.disk.removeDirectory (s.place p))) o },
  { name := "touch", letters := "acm", run := fun o => eachOfSome (touch o) o },
  { name := "cp", letters := "rRafpvT", run := transferAll false fun o =>
      o.has 'r' || o.has 'R' || o.has 'a' },
  { name := "mv", letters := "fv", run := transferAll true fun _ => true },
  { name := "cat", letters := "u", run := filtered fun _ t => t },
  { name := "sort", letters := "ru", failure := 2, run := filteredTogether sorted 2 },
  { name := "wc", letters := "lcw", run := countAll },
  { name := "ls", letters := "1aA", failure := 2, run := listAll },
  { name := "tee", letters := "a",
    run := fun o s =>
      let written := eachOperand (fun s p => (s.openFile? p (o.has 'a')).map fun (sink, s) =>
        { (s.withSink 1 sink).print s.input with sinks := s.sinks }) 1 o s
      (written.1, { written.2.print s.input with input := [] }) },
  { name := "basename",
    run := fun o s => match o.operands with
      | [p] => (0, s.print (baseName p [] ++ [0x0A]))
      | [p, ending] => (0, s.print (baseName p ending ++ [0x0A]))
      | _ => (1, s) },
  { name := "dirname",
    run := fun o => eachOfSome (fun s p => some (s.print (directoryName p ++ [0x0A]))) o },
  linesUtility "head" (fun n lines => lines.take n),
  linesUtility "tail" (fun n lines => lines.drop (lines.length - n)),
  { name := "seq", run := printNumbers },
  { name := "chmod", letters := "Rrwxf",
    run := fun o => eachOfSome (fun s p => if s.disk.has (s.place p) then some s else none)
      { o with operands := if o.letters.isEmpty || o.has 'R' then o.operands.drop 1 else o.operands } },
  { name := "sleep", run := fun o s => (if o.operands.isEmpty then 1 else 0, s) },
  { name := "sync", run := fun _ s => (0, s) }]

/-- **The utility of a name.** -/
def utility? (name : Text) : Option Utility := utilities.find? fun u => Text.ofString u.name == name

/-- What a utility does with its arguments. -/
def Utility.call (u : Utility) (arguments : List Text) (s : Shell) : Nat × Shell :=
  let o := Operands.ofArguments arguments
  if o.letters.all (Text.ofString u.letters).contains then u.run o s else (u.failure, s)

end Polyfill.Tool
