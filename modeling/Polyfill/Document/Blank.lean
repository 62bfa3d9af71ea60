import Polyfill.Text.Reader

/-! # Blanks and comments of a document

The mapping document is TOML. A comment runs to the end of its line; blanks, line breaks and comments
may stand between any two parts of a value that spans lines. -/

namespace Polyfill.Document

open Scan Reader

/-- A blank inside a line. -/
def isSpace (b : UInt8) : Bool := b == 0x20 || b == 0x09

/-- A byte that neither a comment nor a string may hold. -/
def isControl (b : UInt8) : Bool := (b < 0x20 && b != 0x09) || b == 0x7F

/-- Skip the blanks of a line. -/
def skipSpaces : Reader Unit := do
  let _ ← readWhile isSpace

/-- Read a line break, if one comes next. -/
def acceptNewline : Reader Bool := do
  if ← accept "\n" then return true
  accept "\r\n"

/-- Skip a comment up to its line break, if one comes next. -/
def skipComment : Reader Unit := do
  if ← accept "#" then
    let _ ← readWhile (!isControl ·)

/-- Read the end of a line: blanks, a comment, and a line break or the end of the document. -/
def endLine : Reader Unit := do
  skipSpaces
  skipComment
  unless ← atEnd do
    ensure (← acceptNewline)

/-- Skip the blanks and the comment of a line, and tell whether a line break came after them. -/
def skipLine : Reader (Option Unit) := do
  skipSpaces
  skipComment
  if ← acceptNewline then return some () else return none

/-- Skip blanks, line breaks and comments. -/
def skipBlank : Reader Unit := do
  let _ ← collect skipLine ((← rest).length + 1)

end Polyfill.Document
