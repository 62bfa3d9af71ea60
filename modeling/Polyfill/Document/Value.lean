import Polyfill.Text.Basic

/-! # Values and tables of a document

`Value` is what a document holds. While it is read, a table can still be extended, and how depends on
what made it: `Item` keeps that in mind until the document is complete.

* `Item.openTable`, `Item.openElement`: the headers `[a.b]` and `[[a.b]]`.
* `Item.insert`: a line `a.b = v`.
* `Item.close`: the finished value. -/

namespace Polyfill.Document

/-- A value of a document. Numbers and dates that the library does not use keep no content. -/
inductive Value where
  | string (text : Text)
  | boolean (value : Bool)
  | number
  | date
  | array (elements : List Value)
  | table (entries : List (Text × Value))

/-- What made a table. -/
inductive Origin where
  /-- A header of a table below it. -/
  | passed
  /-- Its own header. -/
  | header
  /-- A dotted key. -/
  | dotted
  deriving DecidableEq

/-- A value of a document that is not yet complete. -/
inductive Item where
  /-- A value that is complete. -/
  | value (v : Value)
  /-- A table that may still grow. -/
  | table (origin : Origin) (entries : List (Text × Item))
  /-- Tables in an array, of which the last may still grow. -/
  | elements (tables : List (List (Text × Item)))

/-- The entries of a table. -/
abbrev Entries := List (Text × Item)

namespace Entries

/-- Replace the item under `key`, or add one, as `f` says. -/
def update (key : Text) (f : Option Item → Option Item) : Entries → Option Entries
  | [] => (f none).map fun item => [(key, item)]
  | (k, item) :: es =>
    if k = key then (f (some item)).map fun item' => (k, item') :: es
    else (update key f es).map ((k, item) :: ·)

end Entries

/-- Apply `f` to the last element of a list. -/
def updateLast {α : Type} (f : α → Option α) : List α → Option (List α)
  | [] => none
  | [a] => (f a).map ([·])
  | a :: as => (updateLast f as).map (a :: ·)

namespace Item

/-- Apply `f` to the table at a path that headers walk along; missing tables are made. -/
def along (f : Entries → Option Entries) : List Text → Entries → Option Entries
  | [], es => f es
  | key :: path, es =>
    Entries.update key (fun
      | none => (along f path []).map (.table .passed)
      | some (.table origin sub) => (along f path sub).map (.table origin)
      | some (.elements tables) => (updateLast (along f path) tables).map .elements
      | some (.value _) => none) es

/-- Define the table under `key` by its header. Only a table that other headers passed through may
exist already. -/
def define (key : Text) : Entries → Option Entries :=
  Entries.update key fun
    | none => some (.table .header [])
    | some (.table .passed sub) => some (.table .header sub)
    | some _ => none

/-- Add a table to the array under `key`. -/
def append (key : Text) : Entries → Option Entries :=
  Entries.update key fun
    | none => some (.elements [[]])
    | some (.elements tables) => some (.elements (tables ++ [[]]))
    | some _ => none

/-- Open the table with the header `[path]`. -/
def openTable (path : List Text) (es : Entries) : Option Entries :=
  match path.getLast? with
  | none => none
  | some key => along (define key) path.dropLast es

/-- Open an element of the array with the header `[[path]]`. -/
def openElement (path : List Text) (es : Entries) : Option Entries :=
  match path.getLast? with
  | none => none
  | some key => along (append key) path.dropLast es

/-- Insert a value under a dotted key. No table on the way may be defined by its own header, nor may an
element of an array take the value. -/
def insert (v : Value) : List Text → Entries → Option Entries
  | [], _ => none
  | [key], es =>
    Entries.update key (fun
      | none => some (.value v)
      | some _ => none) es
  | key :: path, es =>
    Entries.update key (fun
      | none => (insert v path []).map (.table .dotted)
      | some (.table origin sub) =>
        if origin = .header then none else (insert v path sub).map (.table origin)
      | some (.elements tables) =>
        if path.length = 1 then none else (updateLast (insert v path) tables).map .elements
      | some (.value _) => none) es

mutual

/-- The finished value of an item. -/
def close : Item → Value
  | .value v => v
  | .table _ es => .table (closeEntries es)
  | .elements tables => .array (closeTables tables)

/-- The finished values of a table. -/
def closeEntries : Entries → List (Text × Value)
  | [] => []
  | (k, item) :: es => (k, item.close) :: closeEntries es

/-- The finished tables of an array. -/
def closeTables : List Entries → List Value
  | [] => []
  | es :: tables => .table (closeEntries es) :: closeTables tables

end

end Item

end Polyfill.Document
