import Polyfill.Edit.Basic

/-! # Deleting whole lines

A statement that stands alone on its lines is deleted together with its indentation and its line
break. `expandToLine` widens a range accordingly: if nothing but blanks shares the first and the last
line of the range, it takes both lines whole, and if a blank line (or nothing) comes before and a
blank line after, it takes the one after, too. Otherwise the range stays as it is. -/

namespace Polyfill

/-- A space or a tab. -/
def isIndent (b : UInt8) : Bool := b == 0x20 || b == 0x09

/-- A space, a tab or a carriage return. -/
def isLineBlank (b : UInt8) : Bool := isIndent b || b == 0x0D

/-- The bytes are none, or the first is a line feed. -/
def atLineBreak : Text → Bool
  | [] => true
  | b :: _ => b == 0x0A

/-- The line that ends where the reversed text `before` starts is blank. -/
def blankLineBefore (before : Text) : Bool := atLineBreak (before.dropWhile isLineBlank)

/-- The length of the blank line, with its line feed, that the text starts with. -/
def blankLineLength? (after : Text) : Option Nat :=
  match after.dropWhile isLineBlank with
  | 0x0A :: _ => some ((after.takeWhile isLineBlank).length + 1)
  | _ => none

/-- **The range widened to whole lines**, where it shares its lines with blanks only. -/
def expandToLine (source : Text) (start stop : Nat) : Nat × Nat :=
  let before := (source.take start).reverse
  let after := source.drop stop
  let outer := before.dropWhile isIndent
  let first := start - (before.takeWhile isIndent).length
  let last := stop + (after.takeWhile isLineBlank).length
  if !(atLineBreak outer && atLineBreak (after.dropWhile isLineBlank)) then (start, stop)
  else
    match after.dropWhile isLineBlank with
    | [] => (first, last)
    | _ :: next =>
      let blankBefore :=
        match outer with
        | [] => true
        | _ :: previous => blankLineBefore previous
      match blankLineLength? next with
      | some n => if blankBefore then (first, last + 1 + n) else (first, last + 1)
      | none => (first, last + 1)

/-- `expandToLine` of a range whose ends lie in the source. -/
def expandToLine? (source : Text) (start stop : Nat) : Option (Nat × Nat) :=
  if start ≤ source.length ∧ stop ≤ source.length then some (expandToLine source start stop)
  else none

end Polyfill
