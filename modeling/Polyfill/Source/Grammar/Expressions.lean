import Polyfill.Source.Grammar.Members

/-! # Expressions

An expression is an operand with suffixes and operators behind it. `operand` reads what an expression
starts with; `expression` goes on as long as what follows binds strongly enough. What can stand in front
of a suffix or an operator is not restricted. -/

namespace Polyfill.Source.Grammar

open Scan Source.Parser

/-! ### Variables -/

/-- An expression behind an opening brace, with the closing one. -/
def toBrace (g : Rules) : Parser Expr := do
  let e ← g.expr lowestLevel
  expect "\x7d"
  return e

/-- An expression in braces. -/
def braced (g : Rules) : Parser Expr := do
  expect "\x7b"
  toBrace g

/-- A variable, whose name can be computed: an expression in braces behind a dollar sign, or the value of
another variable. -/
def variableExpr (g : Rules) : Parser Expr := do
  let signs ← many do
    if ← accept "$" then return some () else return none
  let inner : Expr ←
    if ← accept "$\x7b" then do
      pure (.compound .var [← toBrace g])
    else do
      let _ ← take .var
      pure (.compound .var [])
  return signs.foldl (fun e _ => .compound .var [e]) inner

/-- The next token starts a variable. -/
def seesVariable : Parser Bool := do
  match ← kind with
  | some .var | some (.sign "$") | some (.sign "$\x7b") => return true
  | _ => return false

/-! ### Suffixes -/

/-- A call with its arguments; one that leaves some open is no call yet. -/
def callOf (g : Rules) (complete : List Arg → Expr) (parts : List Expr) : Parser Expr := do
  let (args, closed) ← arguments g
  if closed then return complete args
  return .compound .openCall (parts ++ args.map Arg.value)

/-- The next token starts arguments, and they belong to an operand at the given level. -/
def seesCall (level : Nat) : Parser Bool := return level ≤ callLevel && (← sees "(")

/-- The name of a member of an object, behind the arrow. -/
def memberName (g : Rules) : Parser (List Expr) := do
  if ← sees "\x7b" then return [← braced g]
  if ← seesVariable then return [← variableExpr g]
  let _ ← word
  return []

/-- A member of an object, or a call of it, behind the arrow. -/
def objectMember (g : Rules) (level : Nat) (object : Expr) : Parser Expr := do
  let access : Expr := .compound .access (object :: (← memberName g))
  if ← seesCall level then callOf g (.call access) [access]
  else return access

/-- A member of a class whose name is computed by `e`, or a call of it. -/
def computedMember (g : Rules) (level : Nat) (shape : Shape) (target e : Expr) : Parser Expr := do
  if ← seesCall level then callOf g (.staticCall target (.computed [e])) [target, e]
  else return .compound shape [target, e]

/-- A member of a class, or a call of it, behind the colons. -/
def classMember (g : Rules) (level : Nat) (target : Expr) : Parser Expr := do
  if ← sees "\x7b" then computedMember g level .classConstant target (← braced g)
  else if ← seesVariable then computedMember g level .access target (← variableExpr g)
  else
    let ident ← word
    if ← seesCall level then callOf g (.staticCall target (.named ident)) [target]
    else return .compound .classConstant [target]

/-- An element of an array, behind the bracket. -/
def element (g : Rules) (array : Expr) : Parser Expr := do
  if ← accept "]" then return .compound .access [array]
  let i ← g.expr lowestLevel
  expect "]"
  return .compound .access [array, i]

/-- The expression with one more suffix, if the next one binds at least as strongly as the level. -/
def withSuffix (g : Rules) (level : Nat) (e : Expr) : Parser (Option Expr) := do
  if ← seesCall level then return some (← callOf g (.call e) [e])
  if level ≤ elementLevel && (← accept "[") then return some (← element g e)
  if level ≤ memberLevel then
    if (← accept "->") || (← accept "?->") then return some (← objectMember g level e)
    if ← accept "::" then return some (← classMember g level e)
  if level ≤ countLevel && ((← accept "++") || (← accept "--")) then
    return some (.compound .count [e])
  return none

/-! ### Arrays and strings -/

/-- An entry of an array. -/
def arrayEntry (g : Rules) : Parser (List Expr) := do
  if ← accept "..." then return [← g.expr lowestLevel]
  let first ← g.expr lowestLevel
  if ← accept "=>" then return [first, ← g.expr lowestLevel]
  return [first]

/-- The entries of an array up to the closing sign; entries may be left out. -/
def arrayEntries (g : Rules) (close : String) : Parser Expr := do
  let entries ← many do
    if ← sees close then return none
    if ← accept "," then return some []
    let e ← arrayEntry g
    unless ← sees close do
      expect ","
    return some e
  expect close
  return .compound .array entries.flatten

/-- An embedded expression, if one comes next. -/
def embedded (g : Rules) : Parser (Option Expr) := do
  if ← acceptKind .embedStart then
    let e ← if ← sees "\x7b" then braced g else g.expr lowestLevel
    let _ ← take .embedEnd
    return some e
  else return none

/-- A string with embedded expressions. -/
def template (g : Rules) : Parser Expr := do
  let _ ← take .templateStart
  let parts ← many (embedded g)
  let _ ← take .templateEnd
  return .compound .template parts

/-! ### Constructs of the language -/

/-- The next tokens start a class without a name. -/
def seesAnonymousClass : Parser Bool := do
  match ← kind with
  | some (.sign "#[") | some (.word "class") => return true
  | some (.word w) => return w != "static" && modifierWords.contains w
  | _ => return false

/-- The creation of an object, behind the keyword. -/
def creation (g : Rules) : Parser Expr := do
  if ← seesAnonymousClass then anonymousClass g
  else
    let target ← g.expr creationLevel
    return .compound .construct (target :: (← argumentValues g))

/-- An arm of a match: its conditions and its value. -/
def matchArm (g : Rules) : Parser (List Expr) := do
  let conditions ←
    if ← acceptWord "default" then pure []
    else sepUntil (· == .sign "=>") (g.expr lowestLevel)
  expect "=>"
  return conditions ++ [← g.expr lowestLevel]

/-- A match, behind the keyword. -/
def matchExpr (g : Rules) : Parser Expr := do
  expect "("
  let subject ← g.expr lowestLevel
  expect ")"
  expect "\x7b"
  let arms ← sepTo "\x7d" (matchArm g)
  return .compound .construct (subject :: arms.flatten)

/-- What a generator gives, behind the keyword; only at the end of a statement it can be left out. -/
def yieldExpr (g : Rules) : Parser Expr := do
  if (← kind).any isTerminator then return .compound .construct []
  if ← acceptWord "from" then return .compound .construct [← g.expr delegateLevel]
  let first ← g.expr yieldLevel
  if ← accept "=>" then return .compound .construct [first, ← g.expr yieldLevel]
  return .compound .construct [first]

/-- An expression in parentheses, as the only part of a construct. -/
def enclosed (g : Rules) : Parser Expr := do
  expect "("
  let e ← g.expr lowestLevel
  expect ")"
  return .compound .construct [e]

/-- The construct that a keyword starts, if it does: the rule for what is behind the keyword. -/
def constructParts (g : Rules) : String → Option (Parser Expr)
  | "new" => some (creation g)
  | "yield" => some (yieldExpr g)
  | "print" => some do return .compound .construct [← g.expr printLevel]
  | "throw" | "include" | "include_once" | "require" | "require_once" => some do
    return .compound .construct [← g.expr lowestLevel]
  | "isset" => some do
    expect "("
    return .compound .construct (← sepTo ")" (g.expr lowestLevel))
  | "empty" | "eval" => some (enclosed g)
  | "exit" | "die" => some do return .compound .construct (← argumentValues g)
  | _ => none

/-- The construct that a keyword starts only in front of a parenthesis, if it does. -/
def calledParts (g : Rules) : String → Option (Parser Expr)
  | "array" | "list" => some do
    expect "("
    arrayEntries g ")"
  | "match" => some (matchExpr g)
  | _ => none

/-- The next tokens start an anonymous function. -/
def seesAnonymousFunction : Parser Bool := do
  match ← kind, ← kindAt 1 with
  | some (.word "static"), some (.word w) => return w == "function" || w == "fn"
  | some (.word w), some (.sign s) =>
    return (w == "function" || w == "fn") && (s == "(" || s == "&")
  | _, _ => return false

/-- A copy of an object, behind the keyword. -/
def copyExpr (g : Rules) : Parser Expr := do
  return .compound .construct [← g.expr copyLevel]

/-- An operand that is a word: one that stands for a value or for the class at hand, or a name. In a string the
name of a variable and an index may be any word, and then a bracket or a brace is behind it. -/
def namedOperand (w : String) : Parser Expr := do
  let follower ← kindAt 1
  ensure (w == "clone" || !reservedWords.contains w || ["[", "]", "\x7d"].any fun s => follower == some (.sign s))
  let ident ← word
  if constantWords.contains w || classWords.contains w then return .compound .constant []
  return .name ident

/-- An operand that starts with a word. A keyword that starts no construct here is a name. -/
def wordOperand (g : Rules) (w : String) : Parser Expr := do
  if ← seesAnonymousFunction then return ← anonymousFunction g []
  let called := (← kindAt 1) == some (.sign "(")
  if w == "clone" && !called then
    let _ ← next
    return ← copyExpr g
  match constructParts g w, calledParts g w with
  | some parts, _ =>
    let _ ← next
    parts
  | none, some parts =>
    if called then
      let _ ← next
      parts
    else namedOperand w
  | none, none => namedOperand w

/-- An operand that starts with a sign. -/
def signOperand (g : Rules) (s : String) : Parser Expr := do
  if s == "#[" then return ← anonymousFunction g (← attributes g)
  if ← seesVariable then return ← variableExpr g
  let _ ← next
  if s == "(" then
    let e ← g.expr lowestLevel
    expect ")"
    return .parens e
  if s == "[" then return ← arrayEntries g "]"
  if countSigns.contains s then return .compound .count [← g.expr countLevel]
  match signLevel s with
  | some level => return .compound .unary [← g.expr level]
  | none => refuse

/-- An operand: what an expression can start with. -/
def operand (g : Rules) : Parser Expr := do
  match ← kind with
  | some .var => variableExpr g
  | some .qualified => return .name (← name)
  | some .number =>
    let _ ← next
    return .compound .constant []
  | some .string => return .string (← next).text
  | some .templateStart => template g
  | some .cast =>
    let _ ← next
    return .compound .unary [← g.expr unaryLevel]
  | some (.word w) => wordOperand g w
  | some (.sign s) => signOperand g s
  | _ => refuse

/-! ### Operators between two expressions -/

/-- The spelling of the next token, if it may be an operator. -/
def operatorSpelling : Parser String := do
  match ← kind with
  | some (.sign s) => return s
  | some (.word w) => return w
  | _ => return ""

/-- A choice, behind its sign. -/
def choice (g : Rules) (condition : Expr) : Parser Expr := do
  if ← accept ":" then return .compound .choice [condition, ← g.expr (choiceLevel + 1)]
  let first ← g.expr lowestLevel
  expect ":"
  return .compound .choice [condition, first, ← g.expr (choiceLevel + 1)]

/-- The rule for what follows an operator with the given spelling, and the level of the operator. -/
def operatorParts (g : Rules) (left : Expr) (s : String) : Option (Nat × Parser Expr) :=
  if assignmentSigns.contains s then
    some (assignmentLevel, do return Expr.assign (← g.expr assignmentLevel) left)
  else if s == "?" then some (choiceLevel, choice g left)
  else if s == "|>" then
    some (pipeLevel, do return .compound .construct [left, ← g.expr (pipeLevel + 1)])
  else
    (binaryOperator s).map fun op => (op.level, do return .binary left (← g.expr op.rightLevel))

/-- The expression with one more operator, if the next one binds at least as strongly as the level. -/
def withOperator (g : Rules) (level : Nat) (left : Expr) : Parser (Option Expr) := do
  match operatorParts g left (← operatorSpelling) with
  | none => return none
  | some (operatorLevel, parts) =>
    if level ≤ operatorLevel then
      let _ ← next
      return some (← parts)
    else return none

/-- The expression with one more suffix or operator, if the next one binds strongly enough. -/
def extended (g : Rules) (level : Nat) (e : Expr) : Parser (Option Expr) := do
  match ← withSuffix g level e with
  | some e' => return some e'
  | none => withOperator g level e

/-- An expression whose operators bind at least as strongly as the level. -/
def expression (g : Rules) (level : Nat) : Parser Expr := do
  let first ← operand g
  iterate (extended g level) ((← remaining) + 1) first

end Polyfill.Source.Grammar
