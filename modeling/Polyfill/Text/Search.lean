import Polyfill.Text.Basic

/-! # Occurrences of a text in another

`Text.occurrences` is the leftmost scan without overlaps: after a hit the scan goes on behind it.
`Text.wholeWords` keeps the hits that are not part of a longer identifier. -/

namespace Polyfill.Text

/-- The needle stands somewhere in the text. -/
def includes (needle : Text) : Text → Bool
  | [] => needle.isEmpty
  | b :: rest => needle.isPrefixOf (b :: rest) || includes needle rest

/-- What follows the first occurrence of the needle. -/
def after? (needle : Text) : Text → Option Text
  | [] => if needle.isEmpty then some [] else none
  | b :: rest =>
    if needle.isPrefixOf (b :: rest) then some ((b :: rest).drop needle.length)
    else after? needle rest

/-- The hits of a leftmost scan that is at offset `pos` and still inside a hit for `skip` bytes. -/
def occurrencesFrom (needle : Text) : (pos skip : Nat) → Text → List Nat
  | _, _, [] => []
  | pos, skip + 1, _ :: rest => occurrencesFrom needle (pos + 1) skip rest
  | pos, 0, b :: rest =>
    if needle.isPrefixOf (b :: rest) then
      pos :: occurrencesFrom needle (pos + 1) (needle.length - 1) rest
    else occurrencesFrom needle (pos + 1) 0 rest

/-- The offsets of the needle in a leftmost scan without overlaps. -/
def occurrences (needle t : Text) : List Nat := occurrencesFrom needle 0 0 t

/-- The byte before the offset `i` continues an identifier. -/
def identBefore (t : Text) (i : Nat) : Bool :=
  match (t.take i).getLast? with
  | none => false
  | some b => isIdentByte b

/-- The byte at the offset `i` continues an identifier. -/
def identAt (t : Text) (i : Nat) : Bool := startsInIdent (t.drop i)

/-- The offsets at which the word stands as a whole identifier, ignoring the case of ASCII
letters. -/
def wholeWords (word t : Text) : List Nat :=
  (occurrences word.lower t.lower).filter fun i => !t.identBefore i && !t.identAt (i + word.length)

end Polyfill.Text
