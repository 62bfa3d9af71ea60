import Polyfill.Source.Lexeme

/-! # Strings with embedded expressions

Between double quotes, between backquotes and in a document of several lines, a `$` in front of a name
embeds a variable with at most one index or property, and `{$` or `${` embeds an expression up to the
matching brace. -/

namespace Polyfill.Source

/-- The range of an embedded expression, relative to the start of its string. -/
structure Embed where
  start : Nat
  length : Nat
  deriving DecidableEq

/-- A string with embedded expressions: the lengths of its opening mark, of what is between, and of its
closing mark. -/
structure Template where
  opening : Nat
  between : Nat
  closing : Nat
  embeds : List Embed
  deriving DecidableEq

/-- The length up to the brace that closes `depth` more than one open brace. -/
def bracedLength : (depth : Nat) → Text → Nat
  | _, [] => 0
  | depth, b :: t =>
    if b == 0x7D then
      match depth with
      | 0 => 1
      | depth + 1 => bracedLength depth t + 1
    else if b == 0x7B then bracedLength (depth + 1) t + 1
    else bracedLength depth t + 1

/-- The length up to the bracket that closes `depth` more than one open bracket, or up to a blank. -/
def bracketedLength : (depth : Nat) → Text → Nat
  | _, [] => 0
  | depth, b :: t =>
    if isCodeBlank b then 0
    else if b == 0x5D then
      match depth with
      | 0 => 1
      | depth + 1 => bracketedLength depth t + 1
    else if b == 0x5B then bracketedLength (depth + 1) t + 1
    else bracketedLength depth t + 1

/-- The length of an embedded variable with the index or the property behind it. -/
def variableLength (t : Text) : Nat :=
  let plain := 1 + identLength (t.drop 1)
  let after : Text := t.drop plain
  if after.startsWith "[" then plain + 1 + bracketedLength 0 (after.drop 1)
  else if after.startsWith "->" && headIs isIdentStart (after.drop 2) then
    plain + 2 + identLength (after.drop 2)
  else if after.startsWith "?->" && headIs isIdentStart (after.drop 3) then
    plain + 3 + identLength (after.drop 3)
  else plain

/-- The length of the embedded expression at the start of the text, `0` if there is none. -/
def embedLength (t : Text) : Nat :=
  if t.startsWith "$" && headIs isIdentStart (t.drop 1) then variableLength t
  else if t.startsWith "\x7b$" || t.startsWith "$\x7b" then 2 + bracedLength 0 (t.drop 2)
  else 0

/-- The embedded expressions of a string up to its closing quote, and the offset of that quote. The scan
is at offset `pos`, inside an embedded expression for `skip` more bytes. -/
def embedsFrom (quote : UInt8) :
    (pos skip : Nat) → (escaped : Bool) → Text → Option (List Embed × Nat)
  | _, _, _, [] => none
  | pos, skip + 1, _, _ :: t => embedsFrom quote (pos + 1) skip false t
  | pos, 0, escaped, b :: t =>
    if b == quote && !escaped then some ([], pos)
    else if b == 0x5C then embedsFrom quote (pos + 1) 0 (!escaped) t
    else
      match if escaped then 0 else embedLength (b :: t) with
      | 0 => embedsFrom quote (pos + 1) 0 false t
      | n + 1 =>
        (embedsFrom quote (pos + 1) n false t).map fun r => (⟨pos, n + 1⟩ :: r.1, r.2)

/-- The string with embedded expressions whose opening quote ends at offset `opening`. -/
def quotedTemplate? (quote : UInt8) (opening : Nat) (t : Text) : Option Template :=
  (embedsFrom quote opening 0 false (t.drop opening)).map fun r =>
    { opening, between := r.2 - opening, closing := 1, embeds := r.1 }

/-! ### Documents of several lines -/

/-- The label of a document, and whether it embeds expressions. -/
structure Label where
  name : Text
  embeds : Bool

/-- The label behind `<<<` and blanks, with the length of all that is written for it. -/
def label? (t : Text) : Option (Label × Nat) :=
  let quote := headIs (fun b => b == 0x22 || b == 0x27) t
  let name := (if quote then t.drop 1 else t).takeWhile isIdentByte
  if !headIs isIdentStart name then none
  else if quote then
    if t[name.length + 1]? == t.head? then some (⟨name, !t.startsWith "'"⟩, name.length + 2) else none
  else some (⟨name, true⟩, name.length)

/-- The length of a line break at the start of the text, `0` if there is none. -/
def newlineLength (t : Text) : Nat :=
  if t.startsWith "\r\n" then 2 else if t.startsWith "\n" then 1 else 0

/-- A line of a document ends with the byte. -/
def isLineEnd (b : UInt8) : Bool := b == 0x0A || b == 0x0D

/-- The text starts with the closing mark of a document: its name, with no letter or digit behind it. -/
def startsWithMark (name t : Text) : Bool :=
  name.isPrefixOf t && !headIs (fun b => isLetter b || isDigit b) (t.drop name.length)

/-- The embedded expressions of a document up to its closing mark, and the offset of that mark. The mark
closes the document where only blanks stand between it and the start of its line, or the end of an
embedded expression; `fresh` says that this is so at offset `pos`. The scan is inside an embedded
expression for `skip` more bytes. -/
def documentFrom (label : Label) :
    (pos skip : Nat) → (fresh escaped : Bool) → Text → Option (List Embed × Nat)
  | _, _, _, _, [] => none
  | pos, skip + 1, _, _, _ :: t => documentFrom label (pos + 1) skip true false t
  | pos, 0, fresh, escaped, b :: t =>
    if isLineEnd b then documentFrom label (pos + 1) 0 true false t
    else if isCodeBlank b then documentFrom label (pos + 1) 0 fresh escaped t
    else if label.embeds && b == 0x5C then documentFrom label (pos + 1) 0 false (!escaped) t
    else
      match if label.embeds && !escaped then embedLength (b :: t) else 0 with
      | n + 1 =>
        (documentFrom label (pos + 1) n true false t).map fun r => (⟨pos, n + 1⟩ :: r.1, r.2)
      | 0 =>
        if fresh && startsWithMark label.name (b :: t) then some ([], pos)
        else documentFrom label (pos + 1) 0 false false t

/-- The document of several lines whose `<<<` stands at offset `start`. -/
def document? (start : Nat) (t : Text) : Option Template := do
  let indent := ((t.drop (start + 3)).takeWhile isCodeBlank).length
  let (label, written) ← label? (t.drop (start + 3 + indent))
  let newline := newlineLength (t.drop (start + 3 + indent + written))
  if newline = 0 then none
  else
    let opening := start + 3 + indent + written + newline
    let (embeds, mark) ← documentFrom label opening 0 true false (t.drop opening)
    return { opening, between := mark - opening, closing := label.name.length, embeds }

end Polyfill.Source
