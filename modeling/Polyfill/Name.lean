import Polyfill.Text.Blank

/-! # Qualified names

A qualified name is a sequence of segments joined by `\`. Names are compared in canonical form,
without a separator at either end; the global namespace is the empty name.

* `Name.join (Name.namespaceOf n) (Name.shortName n)` gives back a name that has no leading
  separator.
* `Name.within?` measures one namespace against another: only a whole number of segments counts, so
  `A\B` contains `A\B\C` and not `A\Borange`. -/

namespace Polyfill.Name

/-- The byte `\` between two segments. -/
def separator : UInt8 := 0x5C

/-- The text without one separator at its start. -/
def dropLeadingSeparator : Text → Text
  | [] => []
  | b :: rest => if b = separator then rest else b :: rest

/-- The text without one separator at its end. -/
def dropTrailingSeparator (t : Text) : Text := (dropLeadingSeparator t.reverse).reverse

/-- The canonical form of a name: without surrounding white space, then without one separator at
its start and one at its end. -/
def normalize (t : Text) : Text := dropTrailingSeparator (dropLeadingSeparator t.trim)

/-- The last segment. -/
def shortName (t : Text) : Text := (t.reverse.takeWhile (· != separator)).reverse

/-- All but the last segment; empty for a name in the global namespace. -/
def namespaceOf (t : Text) : Text := ((t.reverse.dropWhile (· != separator)).drop 1).reverse

/-- The name of something in a namespace. -/
def join (ns name : Text) : Text := if ns.isEmpty then name else ns ++ separator :: name

/-- What follows `root` in `ns`, if `ns` is `root` itself or lies below it. -/
def within? (ns root : Text) : Option Text :=
  if root.isPrefixOf ns then
    match ns.drop root.length with
    | [] => some []
    | b :: rest => if b = separator then some (b :: rest) else none
  else none

end Polyfill.Name
