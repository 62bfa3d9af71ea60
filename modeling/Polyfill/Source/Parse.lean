import Polyfill.Source.Grammar.Statements
import Polyfill.Source.Lexer
import Polyfill.Source.SourceParser

/-! # Parsing a source file

The rules of the grammar refer back to expressions and statements. `Rules.ofFuel` ties them together
for a bounded nesting of rules; the number of tokens bounds the nesting, since no rule comes back to
itself twice without reading one. Expressions in one another are bounded by a fixed depth. -/

namespace Polyfill.Source

/-- How deep expressions may nest. -/
def depthLimit : Nat := 512

/-- The grammar for rules nested at most `fuel` times, inside `depth` expressions. -/
def Rules.ofFuel : (fuel depth : Nat) → Rules
  | 0, _ => { expr := fun _ => Scan.refuse, statement := Scan.refuse }
  | fuel + 1, depth => {
      expr := fun level =>
        if depth < depthLimit then Grammar.expression (Rules.ofFuel fuel (depth + 1)) level
        else Scan.refuse
      statement := .delayed fun _ => Grammar.statement (Rules.ofFuel fuel depth) }

/-- A parser of all statements of a file. -/
def program (fuel : Nat) : Parser Program :=
  Parser.many do
    match ← Parser.kind with
    | none => return none
    | some _ => return some (← (Rules.ofFuel fuel 0).statement)

/-- **The tree of a source file**, if it is free of errors. -/
def tree? (source : Text) : Option Program := do
  let tokens ← tokens? source
  let (statements, _) ← (program (2 * tokens.length + 2)).run { tokens }
  return statements

/-- The parser of the library. It gives a source up at its first error. -/
instance : SourceParser where
  tokens source := (tokens? source).getD []
  parse source :=
    match tree? source with
    | some p => .tree p
    | none => .errors none

end Polyfill.Source
