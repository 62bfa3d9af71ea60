import Polyfill.Mapping.Entry

/-! # Views of the mapping table

Two views are derived from the entries. `NamespaceMoves` sends old namespaces to new ones and is
consulted by the longest mapped namespace that contains the one looked up. `ClassRenames` sends old
simple names to new ones, whatever their namespace. Neither stores a pair whose sides are equal. -/

namespace Polyfill.Mapping

/-- Old namespaces with their new names, in order of registration. -/
structure NamespaceMoves where
  pairs : List (Text × Text) := []
  deriving DecidableEq

/-- A mapped namespace that contains the one looked up. -/
structure Match where
  /-- The mapped namespace. -/
  old : Text
  /-- Its new name. -/
  new : Text
  /-- What follows it in the namespace looked up. -/
  rest : Text

/-- The namespace a match leads to. Below the global namespace the rest loses its leading
separators. -/
def Match.result (c : Match) : Text :=
  if c.new.isEmpty then c.rest.dropWhile (· == Name.separator) else c.new ++ c.rest

namespace NamespaceMoves

/-- The new name registered for `old`. -/
def target? (m : NamespaceMoves) (old : Text) : Option Text := m.pairs.lookup old

/-- Register a pair. A pair of equal sides is accepted and not stored; of two targets for one
namespace the first is kept, and `false` tells that the pair was refused. -/
def insert (m : NamespaceMoves) (old new : Text) : Bool × NamespaceMoves :=
  if old = new then (true, m)
  else
    match m.target? old with
    | some stored => (stored == new, m)
    | none => (true, ⟨m.pairs ++ [(old, new)]⟩)

/-- The mapped namespaces that contain `ns`, in order of registration. -/
def candidates (m : NamespaceMoves) (ns : Text) : List Match :=
  m.pairs.filterMap fun p => (Name.within? ns p.1).map fun rest => ⟨p.1, p.2, rest⟩

/-- Of two matches the longer, the first if they are of one length. -/
def longer (best : Option Match) (c : Match) : Option Match :=
  match best with
  | none => some c
  | some b => if b.old.length < c.old.length then some c else some b

/-- The match with the longest mapped namespace. -/
def longest (cs : List Match) : Option Match := cs.foldl longer none

/-- The new name of `ns` by the longest mapped namespace that contains it. -/
def move? (m : NamespaceMoves) (ns : Text) : Option Text :=
  (longest (m.candidates ns)).map Match.result

end NamespaceMoves

/-- Old simple names with their new ones. -/
structure ClassRenames where
  pairs : List (Text × Text) := []
  deriving DecidableEq

namespace ClassRenames

/-- The pairs with `new` for `old`: in the place of the old pair if there is one, else at the end. -/
def put (old new : Text) : List (Text × Text) → List (Text × Text)
  | [] => [(old, new)]
  | p :: ps => if p.1 = old then (old, new) :: ps else p :: put old new ps

/-- Register a new name, unless it equals the old one. -/
def insert (m : ClassRenames) (old new : Text) : ClassRenames :=
  if old = new then m else ⟨put old new m.pairs⟩

/-- The new name of `old`. -/
def get? (m : ClassRenames) (old : Text) : Option Text := m.pairs.lookup old

end ClassRenames

end Polyfill.Mapping
