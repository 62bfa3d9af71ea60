import Polyfill.Source.Grammar.Expressions

/-! # Statements

Control structures come in two forms: with a statement as their body, or with statements between a colon
and a closing keyword. A single statement is a bare body even if it is a block; `else if` is an `else`
whose body is an `if`. -/

namespace Polyfill.Source.Grammar

open Scan Source.Parser

/-- An expression in parentheses. -/
def condition (g : Rules) : Parser Expr := do
  expect "("
  let e ← g.expr lowestLevel
  expect ")"
  return e

/-- Statements up to one of the given keywords, which is left in place. -/
def statementsTo (g : Rules) (words : List String) : Parser (List Stmt) :=
  manyUntil (fun
    | .word w => words.contains w
    | _ => false) g.statement

/-- The body of a loop: a statement, or statements between a colon and the closing keyword. -/
def loopBody (g : Rules) (close : String) : Parser Body := do
  if ← accept ":" then
    let ss ← statementsTo g [close]
    expectWord close
    terminator
    return .list ss
  return .single (← g.statement)

/-! ### Control structures -/

/-- The further branches of an `if` whose bodies are statements: their conditions and bodies. -/
def branches (g : Rules) : Parser (List (List Expr × Body)) := do
  let elseIfs ← many do
    if ← acceptWord "elseif" then
      let c ← condition g
      return some ([c], .single (← g.statement))
    else return none
  if ← acceptWord "else" then return elseIfs ++ [([], .single (← g.statement))]
  return elseIfs

/-- The further branches of an `if` whose bodies follow colons. -/
def colonBranches (g : Rules) : Parser (List (List Expr × Body)) := do
  let elseIfs ← many do
    if ← acceptWord "elseif" then
      let c ← condition g
      expect ":"
      return some ([c], .list (← statementsTo g ["elseif", "else", "endif"]))
    else return none
  if ← acceptWord "else" then
    expect ":"
    return elseIfs ++ [([], .list (← statementsTo g ["endif"]))]
  return elseIfs

/-- An `if`, behind the keyword: its conditions and bodies. -/
def ifParts (g : Rules) : Parser (List Expr × List Body) := do
  let c ← condition g
  if ← accept ":" then
    let first ← statementsTo g ["elseif", "else", "endif"]
    let more ← colonBranches g
    expectWord "endif"
    terminator
    return (c :: more.flatMap (·.1), .list first :: more.map (·.2))
  else
    let first ← g.statement
    let more ← branches g
    return (c :: more.flatMap (·.1), .single first :: more.map (·.2))

/-- A `while`, behind the keyword. -/
def whileParts (g : Rules) : Parser (List Expr × List Body) := do
  let c ← condition g
  return ([c], [← loopBody g "endwhile"])

/-- A `do`, behind the keyword. -/
def doParts (g : Rules) : Parser (List Expr × List Body) := do
  let body ← g.statement
  expectWord "while"
  let c ← condition g
  terminator
  return ([c], [.single body])

/-- A `for`, behind the keyword. -/
def forParts (g : Rules) : Parser (List Expr × List Body) := do
  expect "("
  let starts ← sepTo ";" (g.expr lowestLevel)
  let conditions ← sepTo ";" (g.expr lowestLevel)
  let steps ← sepTo ")" (g.expr lowestLevel)
  return (starts ++ conditions ++ steps, [← loopBody g "endfor"])

/-- A `foreach`, behind the keyword. -/
def foreachParts (g : Rules) : Parser (List Expr × List Body) := do
  expect "("
  let subject ← g.expr lowestLevel
  expectWord "as"
  let first ← g.expr lowestLevel
  let targets ←
    if ← accept "=>" then do
      pure [first, ← g.expr lowestLevel]
    else pure [first]
  expect ")"
  return (subject :: targets, [← loopBody g "endforeach"])

/-- The token ends the cases of a `switch`. -/
def isSwitchEnd (k : TokenKind) : Bool := k == .word "endswitch" || k == .sign "\x7d"

/-- A case of a `switch`: its value and its statements. -/
def switchCase (g : Rules) : Parser (List Expr × Body) := do
  let value ←
    if ← acceptWord "default" then pure []
    else do
      expectWord "case"
      pure [← g.expr lowestLevel]
  unless ← accept ":" do
    expect ";"
  let statements ← manyUntil (fun k => isSwitchEnd k || k == .word "case" || k == .word "default")
    g.statement
  return (value, .list statements)

/-- The cases of a `switch`, behind its opening sign. -/
def switchCases (g : Rules) : Parser (List (List Expr × Body)) := do
  let _ ← acceptTerminator
  manyUntil isSwitchEnd (switchCase g)

/-- A `switch`, behind the keyword. -/
def switchParts (g : Rules) : Parser (List Expr × List Body) := do
  let subject ← condition g
  let cases ←
    if ← accept ":" then do
      let cases ← switchCases g
      expectWord "endswitch"
      terminator
      pure cases
    else do
      expect "\x7b"
      let cases ← switchCases g
      expect "\x7d"
      pure cases
  return (subject :: cases.flatMap (·.1), cases.map (·.2))

/-- A handler of a `try`, if one comes next. -/
def catchClause (g : Rules) : Parser (Option Body) := do
  if ← acceptWord "catch" then
    expect "("
    type
    let _ ← acceptKind .var
    expect ")"
    return some (.block (← block g))
  else return none

/-- A `try`, behind the keyword. -/
def tryParts (g : Rules) : Parser (List Expr × List Body) := do
  let body ← block g
  let handlers ← many (catchClause g)
  let final ← if ← acceptWord "finally" then pure [Body.block (← block g)] else pure []
  return ([], .block body :: handlers ++ final)

/-- The rule of a control structure. -/
def controlParts (g : Rules) : String → Option (Parser (List Expr × List Body))
  | "if" => some (ifParts g)
  | "while" => some (whileParts g)
  | "do" => some (doParts g)
  | "for" => some (forParts g)
  | "foreach" => some (foreachParts g)
  | "switch" => some (switchParts g)
  | "try" => some (tryParts g)
  | _ => none

/-! ### Declarations -/

/-- A namespace, behind the keyword: its name and its statements. -/
def namespaceParts (g : Rules) : Parser (Option Ident × List Stmt) := do
  let ident ←
    match ← kind with
    | some (.sign "\x7b") | some (.sign ";") | some .closeTag => pure none
    | _ => do
      let ident ← name
      pure (some ident)
  if ← sees "\x7b" then return (ident, (← block g).statements)
  terminator
  let statements ← many do
    match ← kind with
    | none | some (.word "namespace") => return none
    | some _ => return some (← g.statement)
  return (ident, statements)

/-- An imported name. -/
def importItem : Parser Import := do
  let ident ← name
  if ← acceptWord "as" then return ⟨ident, some (← word)⟩
  return ⟨ident, none⟩

/-- Read the keyword for the import of functions or constants, and tell whether it was there. -/
def importKind : Parser Bool := return (← acceptWord "function") || (← acceptWord "const")

/-- The imported names in braces behind their common namespace. If the import is not of one kind as a
whole, each of them can have a kind of its own. -/
def importGroup (typed : Bool) : Parser Unit := do
  let _ ← name
  expect "\\"
  expect "\x7b"
  let _ ← sepTo "\x7d" do
    unless typed do
      let _ ← importKind
    importItem

/-- An import, behind the keyword: the imported names if it is of the plain form. -/
def importParts : Parser (Option (List Import)) := do
  let typed ← importKind
  if (← kindAt 1) == some (.sign "\\") then
    importGroup typed
    terminator
    return none
  let imports ← sepBy1 importItem
  terminator
  return if typed then none else some imports

/-- The name of a class that is declared. -/
def className : Parser Ident := do
  let k ← kind
  ensure !(unclassedWords.any fun w => k == some (.word w))
  word

/-- A class, from its modifiers on. -/
def classParts (g : Rules) : Parser (Ident × List Member) := do
  let _ ← many modifier
  expectWord "class"
  let ident ← className
  namesAfter "extends"
  namesAfter "implements"
  return (ident, ← members g)

/-- An interface, behind the keyword. -/
def interfaceParts (g : Rules) : Parser (Ident × List Member) := do
  let ident ← className
  namesAfter "extends"
  return (ident, ← members g)

/-- A trait, behind the keyword. -/
def traitParts (g : Rules) : Parser (Ident × List Member) := do
  let ident ← className
  return (ident, ← members g)

/-- An enumeration, behind the keyword. -/
def enumParts (g : Rules) : Parser (Ident × List Member) := do
  let ident ← className
  resultType
  namesAfter "implements"
  return (ident, ← members g)

/-- A function, behind the keyword: its parameters and its body. -/
def functionParts (g : Rules) : Parser (List Expr × Block) := do
  let _ ← accept "&"
  let _ ← word
  let params ← parameters g
  resultType
  return (params, ← block g)

/-- The next tokens start an anonymous function as a statement of its own. -/
def seesFunctionStatement : Parser Bool := do
  match ← kind, ← kindAt 1, ← kindAt 2 with
  | some (.word "function"), some (.sign "("), _ => return true
  | some (.word "function"), some (.sign "&"), some (.sign "(") => return true
  | _, _, _ => return false

/-- The signs behind a modifier with which it is a name. -/
def nameSigns : List String := ["::", "(", "->", "?->", "["]

/-- The next tokens start a class: its keyword or a modifier. -/
def seesClass : Parser Bool := do
  match ← kind, ← kindAt 1 with
  | some (.word "class"), _ => return true
  | some (.word w), some (.sign s) => return modifierWords.contains w && !nameSigns.contains s
  | some (.word "static"), some (.word w) => return w != "function" && w != "fn"
  | some (.word w), _ => return modifierWords.contains w
  | _, _ => return false

/-- An anonymous function behind its attributes `attrs`, as a statement that starts at the offset
`start`. -/
def functionStatement (g : Rules) (start : Nat) (attrs : List Expr) : Parser Stmt := do
  let e ← anonymousFunction g attrs
  terminator
  return .expression (← spanFrom start) e

/-- A declaration that starts at the offset `start`, behind its attributes `attrs`, if one comes next. -/
def declaration (g : Rules) (start : Nat) (attrs : List Expr) : Parser (Option Stmt) := do
  let classLike (parts : Parser (Ident × List Member)) : Parser (Option Stmt) := do
    let (ident, ms) ← parts
    return some (.classDecl (← spanFrom start) ident attrs ms)
  if ← seesClass then classLike (classParts g)
  else if ← acceptWord "interface" then classLike (interfaceParts g)
  else if ← acceptWord "trait" then classLike (traitParts g)
  else if ← acceptWord "enum" then classLike (enumParts g)
  else if ← seesFunctionStatement then return some (← functionStatement g start attrs)
  else if ← acceptWord "function" then
    let (params, body) ← functionParts g
    return some (.functionDecl (← spanFrom start) (attrs ++ params) body)
  else if ← acceptWord "const" then
    let values ← sepBy1 (constant g)
    terminator
    return some (.other (← spanFrom start) (attrs ++ values) [])
  else return none

/-! ### Other statements -/

/-- A directive, behind the keyword: its values and the statements it governs. -/
def declareParts (g : Rules) : Parser (List Expr × List Stmt) := do
  expect "("
  let values ← sepTo ")" (constant g)
  if ← accept ":" then
    let ss ← statementsTo g ["enddeclare"]
    expectWord "enddeclare"
    terminator
    return (values, ss)
  match ← kind with
  | some (.sign ";") | some .closeTag =>
    terminator
    return (values, [])
  | _ => return (values, [← g.statement])

/-- A variable with a value it starts with. -/
def staticVariable (g : Rules) : Parser (List Expr) := do
  let _ ← take .var
  defaultValue g

/-- A statement that is a keyword with expressions behind it: the rule for these. -/
def simpleParts (g : Rules) : String → Option (Parser (List Expr))
  | "echo" => some (sepUntil isTerminator (g.expr lowestLevel))
  | "return" | "break" | "continue" => some do
    if (← kind).any isTerminator then return []
    return [← g.expr lowestLevel]
  | "global" => some (sepUntil isTerminator (variableExpr g))
  | "unset" => some do
    expect "("
    sepTo ")" (g.expr lowestLevel)
  | "goto" => some do
    let _ ← word
    return []
  | _ => none

/-- An expression with its terminator. -/
def expressionStatement (g : Rules) (start : Nat) : Parser Stmt := do
  let e ← g.expr lowestLevel
  terminator
  return .expression (← spanFrom start) e

/-- A statement that starts with a word. In front of a colon, a word that starts nothing else is a
label. -/
def wordStatement (g : Rules) (start : Nat) (w : String) : Parser Stmt := do
  match controlParts g w with
  | some parts =>
    let _ ← next
    let (heads, bodies) ← parts
    return .control (← spanFrom start) heads bodies
  | none =>
    match simpleParts g w with
    | some parts =>
      let _ ← next
      let es ← parts
      terminator
      return .other (← spanFrom start) es []
    | none =>
      match w, ← kindAt 1 with
      | "namespace", _ =>
        let _ ← next
        let (ident, ss) ← namespaceParts g
        return .namespaceDecl (← spanFrom start) ident ss
      | "use", _ =>
        let _ ← next
        let imports ← importParts
        return .importDecl (← spanFrom start) imports
      | "declare", _ =>
        let _ ← next
        let (values, ss) ← declareParts g
        return .other (← spanFrom start) values ss
      | "static", some .var =>
        let _ ← next
        let values ← sepUntil isTerminator (staticVariable g)
        terminator
        return .other (← spanFrom start) values.flatten []
      | _, after =>
        match ← declaration g start [] with
        | some s => return s
        | none =>
          if after == some (.sign ":") then
            let _ ← next
            let _ ← next
            return .other (← spanFrom start) [] []
          expressionStatement g start

/-- A statement behind attributes: a declaration or an anonymous function. -/
def attributedStatement (g : Rules) (start : Nat) : Parser Stmt := do
  let attrs ← attributes g
  match ← declaration g start attrs with
  | some s => return s
  | none => functionStatement g start attrs

/-- A statement. -/
def statement (g : Rules) : Parser Stmt := do
  let start ← here
  match ← kind with
  | none => refuse
  | some .inlineText | some .openTag | some .closeTag | some .halt | some (.sign ";") =>
    let _ ← next
    return .other (← spanFrom start) [] []
  | some .echoTag =>
    let _ ← next
    let es ← sepUntil isTerminator (g.expr lowestLevel)
    terminator
    return .other (← spanFrom start) es []
  | some (.sign "\x7b") => return .block (← block g)
  | some (.sign "#[") => attributedStatement g start
  | some (.word w) => wordStatement g start w
  | some _ => expressionStatement g start

end Polyfill.Source.Grammar
