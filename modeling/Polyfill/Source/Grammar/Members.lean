import Polyfill.Source.Grammar.Functions

/-! # Classes and their members -/

namespace Polyfill.Source.Grammar

open Scan Source.Parser

/-- A constant with its value. -/
def constant (g : Rules) : Parser Expr := do
  let _ ← word
  expect "="
  g.expr lowestLevel

/-- Constants of a class, behind the keyword. A type stands in front of the first name if no `=` follows
the first word. -/
def constants (g : Rules) : Parser Member := do
  if (← kindAt 1) != some (.sign "=") then type
  let values ← sepBy1 (constant g)
  terminator
  return .other values

/-- A case of an enumeration, behind the keyword. -/
def enumCase (g : Rules) : Parser Member := do
  let _ ← word
  let value ← defaultValue g
  terminator
  return .other value

/-- A method, behind the keyword. -/
def method (g : Rules) (attrs : List Expr) : Parser Member := do
  let _ ← accept "&"
  let ident ← word
  let params ← parameters g
  resultType
  if ← accept ";" then return .method ident (attrs ++ params) none
  return .method ident (attrs ++ params) (some (← block g))

/-- A property with its default value. -/
def property (g : Rules) : Parser (List Expr) := do
  let _ ← take .var
  defaultValue g

/-- Properties, behind their modifiers. -/
def properties (g : Rules) : Parser Member := do
  let _ ← acceptWord "var"
  if !(← at? .var) then type
  let first ← property g
  if ← sees "\x7b" then return .other (first ++ (← hooks g (parameter g)))
  let more ← many do
    if ← accept "," then return some (← property g) else return none
  terminator
  return .other (first ++ more.flatten)

/-- A rule for the names of methods taken over from other classes. Only a method that is named with its
class can be preferred to others. -/
def adaptation : Parser Unit := do
  let absolute := (← kindAt 1) == some (.sign "::")
  if absolute then
    let _ ← name
    expect "::"
  let _ ← word
  if absolute && (← acceptWord "insteadof") then
    let _ ← sepBy1 name
  else
    expectWord "as"
    let _ ← modifier
    unless (← kind).any isTerminator do
      let _ ← word
  terminator

/-- Classes whose methods are taken over, behind the keyword. -/
def traitUse : Parser Member := do
  let _ ← sepBy1 name
  if ← accept "\x7b" then
    let _ ← manyUntil (· == .sign "\x7d") adaptation
    expect "\x7d"
  else terminator
  return .other []

/-- A member of a class. -/
def member (g : Rules) : Parser Member := do
  if ← acceptWord "use" then traitUse
  else
    let attrs ← attributes g
    if ← acceptWord "case" then enumCase g
    else
      let _ ← many modifier
      if ← acceptWord "const" then constants g
      else if ← acceptWord "function" then method g attrs
      else properties g

/-- The members of a class, in braces. -/
def members (g : Rules) : Parser (List Member) := do
  expect "\x7b"
  let ms ← manyUntil (· == .sign "\x7d") (member g)
  expect "\x7d"
  return ms

/-- The classes named behind a keyword, if it is written. -/
def namesAfter (keyword : String) : Parser Unit := do
  if ← acceptWord keyword then
    let _ ← sepBy1 name

/-- The rest of a class without a name, from its attributes on. -/
def anonymousClass (g : Rules) : Parser Expr := do
  let attrs ← attributes g
  let _ ← many modifier
  expectWord "class"
  let args ← argumentValues g
  namesAfter "extends"
  namesAfter "implements"
  return .anonymousClass (attrs ++ args) (← members g)

end Polyfill.Source.Grammar
