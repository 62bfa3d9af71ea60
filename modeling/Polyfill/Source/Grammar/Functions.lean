import Polyfill.Source.Grammar.Basic
import Polyfill.Source.Grammar.Operators
import Polyfill.Source.Grammar.Words

/-! # Names, types, arguments and functions -/

namespace Polyfill.Source.Grammar

open Scan Source.Parser

/-! ### Names and types -/

/-- A name that refers to something declared. -/
def name : Parser Ident := do
  if ← at? .qualified then return identOf (← next)
  word

/-- The name of a type. -/
def typeName : Parser Unit := do
  match ← kind with
  | some (.word w) => ensure !(untypedWords.contains w)
  | some .qualified => pure ()
  | _ => refuse
  let _ ← next

/-- Read the sign between two types, if one comes next. An `&` can also mark a parameter that is passed
by reference. -/
def acceptTypeSign : Parser Bool := do
  if ← accept "|" then return true
  match ← kindAt 1 with
  | some .var | some (.sign "...") | some (.sign "&") => return false
  | _ => accept "&"

/-- A type of at most `fuel` tokens. -/
def typeOf : (fuel : Nat) → Parser Unit
  | 0 => refuse
  | fuel + 1 => do
    if ← accept "?" then typeOf fuel
    else if ← accept "(" then
      typeOf fuel
      expect ")"
    else typeName
    if ← acceptTypeSign then typeOf fuel

/-- A type. -/
def type : Parser Unit := do typeOf (← remaining)

/-- The type of a result, if one is written. -/
def resultType : Parser Unit := do
  if ← accept ":" then type

/-! ### Blocks -/

/-- Statements in braces. -/
def block (g : Rules) : Parser Block := do
  let opening ← take (.sign "\x7b")
  let statements ← manyUntil (· == .sign "\x7d") g.statement
  let closing ← take (.sign "\x7d")
  return .mk ⟨opening.start, opening.stop⟩ ⟨closing.start, closing.stop⟩ statements

/-! ### Arguments -/

/-- The label in front of an argument, if one is written. -/
def argumentLabel : Parser (Option Text) := do
  match ← kind, ← kindAt 1 with
  | some (.word _), some (.sign ":") =>
    let label ← word
    expect ":"
    return some label.text
  | _, _ => return none

/-- An argument. -/
def argument (g : Rules) : Parser Arg := do
  if ← accept "..." then return .mk none (← g.expr lowestLevel)
  let label ← argumentLabel
  return .mk label (← g.expr lowestLevel)

/-- Read the sign of an argument that is left open, if it comes next. -/
def acceptOpen : Parser Bool := do
  match ← kind, ← kindAt 1 with
  | some (.sign "..."), some (.sign ")") | some (.sign "..."), some (.sign ",") => accept "..."
  | _, _ => accept "?"

/-- An argument; none for one that is left open, with or without a label. -/
def openArgument (g : Rules) : Parser (Option Arg) := do
  if ← acceptOpen then return none
  match ← kindAt 1, ← kindAt 2 with
  | some (.sign ":"), some (.sign "?") =>
    let _ ← argumentLabel
    expect "?"
    return none
  | _, _ => return some (← argument g)

/-- The arguments of a call, and whether none of them is left open. -/
def arguments (g : Rules) : Parser (List Arg × Bool) := do
  expect "("
  let args ← sepTo ")" (openArgument g)
  return (args.filterMap id, args.all (·.isSome))

/-- The values of arguments of which none can be left open, if there are any. -/
def argumentValues (g : Rules) : Parser (List Expr) := do
  if ← accept "(" then return (← sepTo ")" (argument g)).map Arg.value
  return []

/-- Attributes, as the values of their arguments. -/
def attributes (g : Rules) : Parser (List Expr) := do
  let groups ← many do
    if ← accept "#[" then
      let group ← sepTo "]" do
        let _ ← name
        argumentValues g
      return some group.flatten
    else return none
  return groups.flatten

/-! ### Parameters -/

/-- A modifier of a class, a member or a parameter, if one comes next. -/
def modifier : Parser (Option Unit) := do
  match ← kind with
  | some (.word w) =>
    if modifierWords.contains w then
      let _ ← next
      return some ()
    else return none
  | _ => return none

/-- A default value, if one is written. -/
def defaultValue (g : Rules) : Parser (List Expr) := do
  if ← accept "=" then return [← g.expr lowestLevel]
  return []

/-- A hook of a property. Its parameters are read by `parameter`. -/
def hook (g : Rules) (parameter : Parser (List Expr)) : Parser (List Expr) := do
  let attrs ← attributes g
  let _ ← many modifier
  let _ ← accept "&"
  let _ ← word
  let params ←
    if ← accept "(" then
      pure (← sepTo ")" parameter).flatten
    else pure []
  if ← accept ";" then return attrs ++ params
  if ← accept "=>" then
    let e ← g.expr lowestLevel
    expect ";"
    return attrs ++ [.arrow params e]
  return attrs ++ [.closure params (← block g)]

/-- The hooks of a property, if there are any. -/
def hooks (g : Rules) (parameter : Parser (List Expr)) : Parser (List Expr) := do
  if ← accept "\x7b" then
    let hs ← manyUntil (· == .sign "\x7d") (hook g parameter)
    expect "\x7d"
    return hs.flatten
  return []

/-- A parameter without hooks. -/
def plainParameter (g : Rules) : Parser (List Expr) := do
  let attrs ← attributes g
  let _ ← many modifier
  match ← kind with
  | some .var | some (.sign "&") | some (.sign "...") => pure ()
  | _ => type
  let _ ← accept "&"
  let _ ← accept "..."
  let _ ← take .var
  return attrs ++ (← defaultValue g)

/-- A parameter with hooks nested at most `fuel` times. -/
def parameterOf (g : Rules) : (fuel : Nat) → Parser (List Expr)
  | 0 => refuse
  | fuel + 1 => do
    let parts ← plainParameter g
    return parts ++ (← hooks g (parameterOf g fuel))

/-- A parameter. -/
def parameter (g : Rules) : Parser (List Expr) := do parameterOf g (← remaining)

/-- The parameters of a function, in parentheses. -/
def parameters (g : Rules) : Parser (List Expr) := do
  expect "("
  return (← sepTo ")" (parameter g)).flatten

/-! ### Anonymous functions -/

/-- A variable that an anonymous function takes over. -/
def capturedVariable : Parser Unit := do
  let _ ← accept "&"
  let _ ← take .var

/-- The variables that an anonymous function takes over, if any are written. -/
def captures : Parser Unit := do
  if ← acceptWord "use" then
    expect "("
    let _ ← sepTo ")" capturedVariable

/-- An anonymous function of either kind, behind its attributes `parts`. -/
def anonymousFunction (g : Rules) (parts : List Expr) : Parser Expr := do
  let _ ← acceptWord "static"
  if ← acceptWord "fn" then
    let _ ← accept "&"
    let params ← parameters g
    resultType
    expect "=>"
    return .arrow (parts ++ params) (← g.expr lowestLevel)
  else
    expectWord "function"
    let _ ← accept "&"
    let params ← parameters g
    captures
    resultType
    return .closure (parts ++ params) (← block g)

end Polyfill.Source.Grammar
