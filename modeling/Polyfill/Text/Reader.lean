import Polyfill.Scan
import Polyfill.Text.Basic

/-! # Reading a text from left to right

A reader takes what it recognizes from the front of the text, or fails. -/

namespace Polyfill

/-- A reader of values from the front of a text. -/
abbrev Reader := Scan Text

namespace Reader

open Scan

/-- The text that is still to be read. -/
def rest : Reader Text := get

/-- The next byte, left in place. -/
def peek : Reader (Option UInt8) := return (← rest).head?

/-- The next text is the given one, left in place. -/
def sees (s : String) : Reader Bool := return (← rest).startsWith s

/-- Read the given text if it comes next, and tell whether it did. -/
def accept (s : String) : Reader Bool := do
  if ← sees s then
    modify (·.drop (Text.ofString s).length)
    return true
  else return false

/-- Read the given text. -/
def expect (s : String) : Reader Unit := do
  ensure (← accept s)

/-- Read bytes as long as the condition holds. -/
def readWhile (condition : UInt8 → Bool) : Reader Text := do
  let taken := (← rest).takeWhile condition
  modify (·.drop taken.length)
  return taken

/-- The text is read to its end. -/
def atEnd : Reader Bool := return (← rest).isEmpty

end Reader

end Polyfill
