import Polyfill.Text.Reader
import Polyfill.Tool.Script.Basic

/-! # Reading scripts

Words are read piece by piece: a piece is quoted or not, and a dollar sign or a back quote begins one that
has its value later. Commands are built from words. A script is read line by line, and a line that makes
no sense ends it.

* `Script.read`: the script a text means. -/

namespace Polyfill.Tool.Script

open Scan Reader

/-! ### Bytes -/

/-- A byte that ends a word outside quotes. -/
def endsWord (b : UInt8) : Bool := (Text.ofString " \t\n;&|<>()").contains b

/-- A byte that begins a quoted part or a value. -/
def isSpecial (b : UInt8) : Bool := (Text.ofString "\\'\"$`").contains b

/-- A byte that can begin the name of a variable. -/
def isNameStart (b : UInt8) : Bool := isLetter b || b == 0x5F

/-- A byte that can continue the name of a variable. -/
def isNameByte (b : UInt8) : Bool := isNameStart b || isDigit b

/-- A byte that is the name of a parameter. -/
def isSign (b : UInt8) : Bool := isDigit b || (Text.ofString "$?#@*!-").contains b

/-- The byte at the end of a line. -/
def newline : UInt8 := 0x0A

/-! ### Between words -/

/-- The text without the blanks at its front. A line that ends in a backslash goes on below. -/
def dropBlanks : Text → Text
  | 0x20 :: t => dropBlanks t
  | 0x09 :: t => dropBlanks t
  | 0x5C :: 0x0A :: t => dropBlanks t
  | t => t

/-- Skip blanks and a comment. -/
def skipBlanks : Reader Unit := do
  modify dropBlanks
  if ← sees "#" then
    let _ ← readWhile (· != newline)

/-- Skip blanks, comments and ends of lines. -/
def skipLines : Reader Unit := do
  let _ ← collect (do
    skipBlanks
    return if ← accept "\n" then some () else none) ((← rest).length + 1)

/-- The given word comes next. -/
def seesWord (s : String) : Reader Bool := do
  let t ← rest
  let next := (t.drop (Text.ofString s).length).head?
  return t.startsWith s && next.all endsWord

/-- Read the given word if it comes next, and tell whether it did. -/
def acceptWord (s : String) : Reader Bool := do
  if ← seesWord s then accept s else return false

/-- Read the given word, on this line or below. -/
def expectWord (s : String) : Reader Unit := do
  skipLines
  ensure (← acceptWord s)

/-- The words that end a row of commands. -/
def closers : List String := ["then", "else", "elif", "fi", "do", "done", "esac", "\x7d"]

/-- Something that ends a row of commands comes next. -/
def seesCloser : Reader Bool := do
  let closed ← closers.mapM seesWord
  return closed.any id || (← sees ")") || (← sees ";;")

/-! ### Names and quotes -/

/-- Read the name of a parameter if one comes next. A number has more than one digit only in braces. -/
def parameterName (inBraces : Bool) : Reader (Option Text) := do
  match ← peek with
  | none => return none
  | some b =>
    if isNameStart b then return some (← readWhile isNameByte)
    else if inBraces && isDigit b then return some (← readWhile isDigit)
    else if isSign b then
      modify (·.drop 1)
      return some [b]
    else return none

/-- The script between back quotes, of which the first is read, and what follows it. A backslash takes its
meaning from the next byte. -/
def backQuoted? : Text → Option (Text × Text)
  | [] => none
  | 0x60 :: rest => some ([], rest)
  | 0x5C :: b :: rest =>
    let kept := if (Text.ofString "\\$`").contains b then [b] else [0x5C, b]
    (backQuoted? rest).map fun (script, after) => (kept ++ script, after)
  | b :: rest => (backQuoted? rest).map fun (script, after) => (b :: script, after)

/-- How a parameter without value is treated, by the sign behind its name. -/
def substitution : Reader (Option Substitute) := do
  if ← accept "-" then return some .fallback
  else if ← accept "=" then return some .assign
  else if ← accept "?" then return some .demand
  else if ← accept "+" then return some .instead
  else return none

/-- The end at which a value is trimmed and whether as much as possible goes, by the sign. -/
def trimming : Reader (Bool × Bool) := do
  if ← accept "##" then return (true, true)
  else if ← accept "#" then return (true, false)
  else if ← accept "%%" then return (false, true)
  else
    expect "%"
    return (false, false)

/-! ### Texts below a line -/

/-- Take the lines below the current one, up to the one that is the given mark, out of the text. With
`isIndented` the tabs at the front of a line do not count. -/
def below (mark : Text) (isIndented : Bool) : Reader Text := do
  let t ← rest
  let line := t.takeWhile (· != newline)
  let trimmed (l : Text) : Text := if isIndented then l.dropWhile (· == 0x09) else l
  let lines := (Text.lines (t.drop (line.length + 1))).map trimmed
  let body := lines.takeWhile (· != mark)
  set (line ++ newline :: Text.ofLines (lines.drop (body.length + 1)))
  return Text.ofLines body

/-! ### Words and commands -/

/-- A part of a simple command. -/
inductive Item where
  | assignment (a : Assignment)
  | word (w : Word)
  | redirect (r : Redirect)

/-- The assignment in an item. -/
def Item.assignment? : Item → Option Assignment
  | assignment a => some a
  | _ => none

/-- The word in an item. -/
def Item.word? : Item → Option Word
  | word w => some w
  | _ => none

/-- The change of a stream in an item. -/
def Item.redirect? : Item → Option Redirect
  | redirect r => some r
  | _ => none

/-- Read the name of a variable and an equals sign, if both come next. -/
def assigned : Reader (Option Text) := do
  let t ← rest
  let name := t.takeWhile isNameByte
  if (name.head?.any isNameStart) && (t.drop name.length).head? == some 0x3D then
    set (t.drop (name.length + 1))
    return some name
  else return none

/-- Read the name of a function and its parentheses, if they come next. -/
def defined : Reader (Option Text) := do
  let t ← rest
  let name := t.takeWhile isNameByte
  match dropBlanks (t.drop name.length) with
  | 0x28 :: after =>
    match dropBlanks after with
    | 0x29 :: body =>
      ensure (name.head?.any isNameStart)
      set body
      return some name
    | _ => return none
  | _ => return none

mutual

/-- Read what follows a dollar sign. -/
def dollar (isQuoted : Bool) : (fuel : Nat) → Reader Piece
  | 0 => refuse
  | fuel + 1 => do
    if ← accept "((" then return .number (← expression 0 fuel) isQuoted
    else if ← accept "(" then
      let body ← commands fuel
      expect ")"
      return .output body isQuoted
    else if ← accept "\x7b" then braced isQuoted fuel
    else
      match ← parameterName false with
      | some name => return .parameter name isQuoted
      | none => return .literal (Text.ofString "$") isQuoted

/-- Read what follows a dollar sign and a brace. -/
def braced (isQuoted : Bool) : (fuel : Nat) → Reader Piece
  | 0 => refuse
  | fuel + 1 => do
    if (← sees "#") && !(← sees "#\x7d") then
      expect "#"
      let name ← ofOption (← parameterName true)
      expect "\x7d"
      return .measure name isQuoted
    let name ← ofOption (← parameterName true)
    if ← accept "\x7d" then return .parameter name isQuoted
    let emptyToo ← accept ":"
    match ← substitution with
    | some how =>
      let word ← if isQuoted then quoted (some 0x7D) fuel else partsUntil (· == 0x7D) fuel
      if !isQuoted then expect "\x7d"
      return .substitute name how emptyToo word isQuoted
    | none =>
      ensure !emptyToo
      let (atFront, isLongest) ← trimming
      let pattern ← partsUntil (· == 0x7D) fuel
      expect "\x7d"
      return .trim name atFront isLongest pattern isQuoted

/-- Read an arithmetic expression up to its two closing parentheses; `depth` more are open. -/
def expression (depth : Nat) : (fuel : Nat) → Reader (List Piece)
  | 0 => refuse
  | fuel + 1 => do
    if ← accept "$" then return (← dollar true fuel) :: (← expression depth fuel)
    else if ← accept "(" then
      return .literal (Text.ofString "(") true :: (← expression (depth + 1) fuel)
    else if ← accept ")" then
      if depth = 0 then
        expect ")"
        return []
      else return .literal (Text.ofString ")") true :: (← expression (depth - 1) fuel)
    else
      match ← rest with
      | [] => refuse
      | b :: t =>
        set t
        return .literal [b] true :: (← expression depth fuel)

/-- Read a script between back quotes, of which the first is read. -/
def backQuoted (isQuoted : Bool) : (fuel : Nat) → Reader Piece
  | 0 => refuse
  | fuel + 1 => do
    let (script, after) ← ofOption (backQuoted? (← rest))
    set script
    let body ← commands fuel
    ensure (← atEnd)
    set after
    return .output body isQuoted

/-- Read a quoted piece, unless the closing byte or the end of the text comes. -/
def quotedPiece (closer : Option UInt8) : (fuel : Nat) → Reader (Option Piece)
  | 0 => refuse
  | fuel + 1 => do
    match ← rest with
    | [] =>
      ensure closer.isNone
      return none
    | b :: t =>
      set t
      if some b == closer then return none
      else if b == 0x24 then return some (← dollar true fuel)
      else if b == 0x60 then return some (← backQuoted true fuel)
      else if b == 0x5C then
        match t with
        | [] => return some (.literal [b] true)
        | c :: after =>
          if c == newline then
            set after
            return some (.literal [] true)
          else if (Text.ofString "\\$`").contains c || some c == closer then
            set after
            return some (.literal [c] true)
          else return some (.literal [b] true)
      else
        let more ← readWhile fun c => !(Text.ofString "\\$`").contains c && some c != closer
        return some (.literal (b :: more) true)

/-- Read quoted pieces and the closing byte, or all of the text if there is none. -/
def quoted (closer : Option UInt8) : (fuel : Nat) → Reader (List Piece)
  | 0 => refuse
  | fuel + 1 => do
    let pieces ← collect (quotedPiece closer fuel) ((← rest).length + 1)
    return if pieces.isEmpty then [.literal [] true] else pieces

/-- Read a part of a word, up to a byte that ends the word. -/
def part (ends : UInt8 → Bool) : (fuel : Nat) → Reader (Option (List Piece))
  | 0 => refuse
  | fuel + 1 => do
    if ← accept "'" then
      let text ← readWhile (· != 0x27)
      expect "'"
      return some [.literal text true]
    else if ← accept "\"" then return some (← quoted (some 0x22) fuel)
    else if ← accept "$" then return some [← dollar false fuel]
    else if ← accept "`" then return some [← backQuoted false fuel]
    else if ← accept "\\\n" then return some []
    else if ← accept "\\" then
      match ← rest with
      | [] => return some [.literal (Text.ofString "\\") true]
      | b :: t =>
        set t
        return some [.literal [b] true]
    else
      let text ← readWhile fun b => !ends b && !isSpecial b
      return if text.isEmpty then none else some [.literal text false]

/-- Read the parts of a word, up to a byte that ends it. -/
def partsUntil (ends : UInt8 → Bool) : (fuel : Nat) → Reader Word
  | 0 => refuse
  | fuel + 1 => do
    return (← collect (part ends fuel) ((← rest).length + 1)).flatten

/-- Read a word. -/
def word : (fuel : Nat) → Reader Word
  | 0 => refuse
  | fuel + 1 => do
    let pieces ← partsUntil endsWord fuel
    ensure !pieces.isEmpty
    return pieces

/-- Read a word on this line, if there is one. -/
def nextWord : (fuel : Nat) → Reader (Option Word)
  | 0 => refuse
  | fuel + 1 => do
    skipBlanks
    match ← peek with
    | none => return none
    | some b => if endsWord b then return none else return some (← word fuel)

/-- Read a change of a stream, if one comes next. -/
def redirect : (fuel : Nat) → Reader (Option Redirect)
  | 0 => refuse
  | fuel + 1 => do
    skipBlanks
    let t ← rest
    let number := t.takeWhile isDigit
    let sign := (t.drop number.length).head?
    if sign == some 0x3E then
      set (t.drop (number.length + 1))
      let stream := if number.isEmpty then 1 else readDigits 10 number
      if ← accept "&" then
        skipBlanks
        return some (.copy stream (← word fuel))
      let append ← accept ">"
      let _ ← if append then pure false else accept "|"
      skipBlanks
      return some (.toFile stream (← word fuel) append)
    else if sign == some 0x3C then
      set (t.drop (number.length + 1))
      if ← accept "<" then
        let isIndented ← accept "-"
        skipBlanks
        let mark ← word fuel
        let isPlain := mark.all fun
          | .literal _ false => true
          | _ => false
        let text ← below (mark.flatMap fun
          | .literal text _ => text
          | _ => []) isIndented
        if isPlain then
          let after ← rest
          set text
          let pieces ← quoted none fuel
          set after
          return some (.fromText pieces)
        else return some (.fromText [.literal text true])
      if ← accept "&" then
        skipBlanks
        return some (.copy 0 (← word fuel))
      skipBlanks
      return some (.fromFile (← word fuel))
    else return none

/-- Read the items of a simple command. Once there was a word there are no more assignments. -/
def items (hasWord : Bool) : (fuel : Nat) → Reader (List Item)
  | 0 => refuse
  | fuel + 1 => do
    match ← redirect fuel with
    | some r => return .redirect r :: (← items hasWord fuel)
    | none =>
      match ← if hasWord then pure none else assigned with
      | some name =>
        let value ← partsUntil endsWord fuel
        return .assignment (.mk name value) :: (← items false fuel)
      | none =>
        match ← nextWord fuel with
        | some w => return .word w :: (← items true fuel)
        | none => return []

/-- Read a simple command. -/
def simple : (fuel : Nat) → Reader Command
  | 0 => refuse
  | fuel + 1 => do
    ensure !(← seesCloser)
    let items ← items false fuel
    ensure !items.isEmpty
    return .simple (items.filterMap (·.assignment?)) (items.filterMap (·.word?))
      (items.filterMap (·.redirect?))

/-- Read commands, of which there is at least one. -/
def block : (fuel : Nat) → Reader (List Command)
  | 0 => refuse
  | fuel + 1 => do
    let body ← commands fuel
    ensure !body.isEmpty
    return body

/-- Read the body of a loop. -/
def loopBody : (fuel : Nat) → Reader (List Command)
  | 0 => refuse
  | fuel + 1 => do
    expectWord "do"
    let body ← block fuel
    expectWord "done"
    return body

/-- Read what follows the word that begins a choice. -/
def choice : (fuel : Nat) → Reader Command
  | 0 => refuse
  | fuel + 1 => do
    let test ← block fuel
    expectWord "then"
    let yes ← block fuel
    if ← acceptWord "elif" then return .choice test yes [← choice fuel]
    let no ← if ← acceptWord "else" then block fuel else pure []
    expectWord "fi"
    return .choice test yes no

/-- Read what follows the word that begins a loop over words. -/
def each : (fuel : Nat) → Reader Command
  | 0 => refuse
  | fuel + 1 => do
    skipBlanks
    let name ← readWhile isNameByte
    ensure (name.head?.any isNameStart)
    skipLines
    let words ← if ← acceptWord "in" then
        let words ← collect (nextWord fuel) ((← rest).length + 1)
        ensure ((← accept ";") || (← sees "\n"))
        pure (some words)
      else
        let _ ← accept ";"
        pure none
    return .each name words (← loopBody fuel)

/-- Read the patterns of an arm. -/
def patterns : (fuel : Nat) → Reader (List Word)
  | 0 => refuse
  | fuel + 1 => do
    skipBlanks
    let first ← word fuel
    skipBlanks
    if ← accept "|" then return first :: (← patterns fuel)
    return [first]

/-- Read the arms of a selection up to its end. -/
def arms : (fuel : Nat) → Reader (List Arm)
  | 0 => refuse
  | fuel + 1 => do
    skipLines
    if ← acceptWord "esac" then return []
    let _ ← accept "("
    let patterns ← patterns fuel
    expect ")"
    let body ← commands fuel
    if ← accept ";;" then return .mk patterns body :: (← arms fuel)
    expectWord "esac"
    return [.mk patterns body]

/-- Read a command that is built from others, if one comes next. -/
def compound : (fuel : Nat) → Reader (Option Command)
  | 0 => refuse
  | fuel + 1 => do
    if ← acceptWord "if" then return some (← choice fuel)
    else if ← acceptWord "while" then return some (.loop false (← block fuel) (← loopBody fuel))
    else if ← acceptWord "until" then return some (.loop true (← block fuel) (← loopBody fuel))
    else if ← acceptWord "for" then return some (← each fuel)
    else if ← acceptWord "case" then
      skipBlanks
      let word ← word fuel
      expectWord "in"
      return some (.select word (← arms fuel))
    else if ← acceptWord "\x7b" then
      let body ← block fuel
      expectWord "\x7d"
      return some (.group body)
    else if ← accept "(" then
      let body ← block fuel
      expect ")"
      return some (.enclosed body)
    else return none

/-- Read a command. -/
def command : (fuel : Nat) → Reader Command
  | 0 => refuse
  | fuel + 1 => do
    skipBlanks
    match ← compound fuel with
    | some c =>
      let changes ← collect (redirect fuel) ((← rest).length + 1)
      return if changes.isEmpty then c else .redirected c changes
    | none =>
      match ← defined with
      | some name =>
        skipLines
        return .define name (← command fuel)
      | none => simple fuel

/-- Read commands that are piped into one another. -/
def pipeline : (fuel : Nat) → Reader Command
  | 0 => refuse
  | fuel + 1 => do
    skipBlanks
    if ← acceptWord "!" then return .negated (← pipeline fuel)
    let first ← command fuel
    skipBlanks
    if (← sees "|") && !(← sees "||") then
      expect "|"
      skipLines
      return .piped first (← pipeline fuel)
    return first

/-- Read what is joined to the command `first` by its success or failure. -/
def joined (first : Command) : (fuel : Nat) → Reader Command
  | 0 => refuse
  | fuel + 1 => do
    skipBlanks
    if ← accept "&&" then
      skipLines
      joined (.both first (← pipeline fuel)) fuel
    else if ← accept "||" then
      skipLines
      joined (.either first (← pipeline fuel)) fuel
    else return first

/-- Read a command with what is joined to it. -/
def statement : (fuel : Nat) → Reader Command
  | 0 => refuse
  | fuel + 1 => do
    joined (← pipeline fuel) fuel

/-- Read commands up to something that ends them. -/
def commands : (fuel : Nat) → Reader (List Command)
  | 0 => refuse
  | fuel + 1 => do
    skipLines
    if (← atEnd) || (← seesCloser) then return []
    let c ← statement fuel
    skipBlanks
    if ← accept "&" then return .detached c :: (← commands fuel)
    else if ← sees ";;" then return [c]
    else if (← accept ";") || (← sees "\n") then return c :: (← commands fuel)
    else return [c]

end

/-! ### Scripts -/

/-- Read the commands of a line. -/
def line : (fuel : Nat) → Reader (List Command)
  | 0 => refuse
  | fuel + 1 => do
    skipBlanks
    if (← atEnd) || (← accept "\n") then return []
    let c ← statement fuel
    skipBlanks
    if ← accept "&" then return .detached c :: (← line fuel)
    else if ← accept ";" then return c :: (← line fuel)
    else
      ensure ((← atEnd) || (← accept "\n"))
      return [c]

/-- The script a text means, in at most `fuel` lines. -/
def readLines : (fuel : Nat) → Text → Script
  | 0, _ => ⟨[], false⟩
  | fuel + 1, t =>
    if t.isEmpty then ⟨[], true⟩
    else
      match (line (8 * t.length + 8)).run t with
      | none => ⟨[], false⟩
      | some (commands, rest) =>
        let script := readLines fuel rest
        { script with lines := commands :: script.lines }

/-- **The script a text means.** -/
def read (t : Text) : Script := readLines (t.length + 1) t

end Polyfill.Tool.Script
