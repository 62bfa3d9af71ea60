import Polyfill.Source.Token
import Polyfill.Source.Tree

/-! # Parsers of source files

The library works on the tree of a source file and leaves it to a parser to make the tree. A parser splits a source
into tokens and makes a tree of it, or counts its errors; one that gives up at the first error need not count. It can
also break off without a result. -/

namespace Polyfill.Source

/-- What a parser makes of a source. -/
inductive Parsed where
  /-- The tree of a source without errors. -/
  | tree (p : Program)
  /-- The source has errors, that many if the parser counts them. -/
  | errors (count : Option Nat)
  /-- The parser broke off. -/
  | panicked

/-- The tree, if there is one. -/
def Parsed.tree? : Parsed → Option Program
  | tree p => some p
  | errors _ | panicked => none

/-- A parser of source files. -/
class SourceParser where
  /-- The tokens of a source. -/
  tokens : Text → List Token
  /-- What becomes of a source. -/
  parse : Text → Parsed

/-- The tree of a source, if the parser makes one. -/
def parse? [SourceParser] (source : Text) : Option Program := (SourceParser.parse source).tree?

end Polyfill.Source
