import Polyfill.Text.Basic

/-! # Tokens of a source file -/

namespace Polyfill.Source

/-- What a token is. -/
inductive TokenKind where
  /-- Text outside the code. -/
  | inlineText
  /-- The tag that opens code. -/
  | openTag
  /-- The tag that opens code to be printed. -/
  | echoTag
  /-- The tag that closes code. -/
  | closeTag
  /-- A variable. -/
  | var
  /-- A name without separators, or a keyword, with its spelling in small letters. -/
  | word (spelling : String)
  /-- A name with separators. -/
  | qualified
  /-- A number. -/
  | number
  /-- A string literal. -/
  | string
  /-- The start of a string with embedded expressions. -/
  | templateStart
  /-- The end of a string with embedded expressions. -/
  | templateEnd
  /-- The start of an embedded expression. -/
  | embedStart
  /-- The end of an embedded expression. -/
  | embedEnd
  /-- A type in parentheses that converts what follows. -/
  | cast
  /-- The statement that ends the code, with all that is behind it. -/
  | halt
  /-- An operator or a delimiter. -/
  | sign (spelling : String)
  deriving DecidableEq

/-- A token with its place. -/
structure Token where
  kind : TokenKind
  text : Text
  start : Nat
  deriving DecidableEq

/-- The offset behind a token. -/
def Token.stop (t : Token) : Nat := t.start + t.text.length

end Polyfill.Source
