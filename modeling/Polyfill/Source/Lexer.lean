import Polyfill.Source.Template

/-! # Splitting a source file into tokens

Code stands between tags; what is outside them is text. `piece?` recognizes what the code starts with,
and `lexCode` and `lexText` go through the file with it. Embedded expressions are code of their own, so
their tokens come between those of the string around them. -/

namespace Polyfill.Source

/-- What code starts with. -/
inductive Piece where
  /-- Blanks or a comment. -/
  | blank (length : Nat)
  /-- A token. -/
  | token (kind : TokenKind) (length : Nat)
  /-- A closing tag. -/
  | close
  /-- A string with embedded expressions. -/
  | template (template : Template)

/-- The piece of a quoted text whose quote stands at offset `mark`. -/
def quotedPiece? (mark : Nat) (t : Text) : Option Piece :=
  let quoted : Text := t.drop mark
  let behind := t.drop (mark + 1)
  if quoted.startsWith "'" then
    (quotedLength? 0x27 false behind).map fun n => .token .string (mark + 1 + n)
  else if isPlainDouble false behind then
    (quotedLength? 0x22 false behind).map fun n => .token .string (mark + 1 + n)
  else (quotedTemplate? 0x22 (mark + 1) t).map .template

/-- The text starts with a quote of a literal. -/
def startsWithQuote (t : Text) : Bool := headIs (fun b => b == 0x27 || b == 0x22) t

/-- What follows the given spelling, if it stands at the start of the text or behind blanks there. -/
def past? (s : String) (t : Text) : Option Text :=
  let u : Text := t.dropWhile isCodeBlank
  if u.startsWith s then some (u.drop (Text.ofString s).length) else none

/-- Behind the word of the statement that ends the code: parentheses and a terminator, with nothing but blanks
between them. -/
def haltsBehind (t : Text) : Bool :=
  ((past? "(" t).bind (past? ")")).any fun u => (past? ";" u).isSome || (past? "?>" u).isSome

/-- The piece of a name or a keyword. The statement that ends the code takes all the rest along. -/
def namePiece? (embedded : Bool) (t : Text) : Option Piece :=
  let n := wordLength embedded t
  match nameKind (t.take n) with
  | .word "__halt_compiler" => if haltsBehind (t.drop n) then some (.token .halt t.length) else none
  | kind => some (.token kind n)

/-- The document of several lines at the start of the text, behind an optional mark. -/
def documentPiece? (t : Text) : Option Piece :=
  if t.startsWith "<<<" then (document? 0 t).map .template
  else if headIs (fun b => b == 0x62 || b == 0x42) t && Text.startsWith (t.drop 1) "<<<" then
    (document? 1 t).map .template
  else none

/-- The piece of an operator or a delimiter. -/
def signPiece? (t : Text) : Option Piece :=
  match castLength? t with
  | some n => some (.token .cast n)
  | none => (sign? t).map fun s => .token (.sign s) (Text.ofString s).length

/-- The piece of code that is neither blank nor a comment. -/
def solidPiece? (embedded : Bool) (t : Text) : Option Piece :=
  if t.startsWith "?>" then some .close
  else if t.startsWith "$" && headIs isIdentStart (t.drop 1) then
    some (.token .var (1 + identLength (t.drop 1)))
  else if startsWithQuote t then quotedPiece? 0 t
  else if headIs (fun b => b == 0x62 || b == 0x42) t && startsWithQuote (t.drop 1) then
    quotedPiece? 1 t
  else if t.startsWith "`" then (quotedTemplate? 0x60 1 t).map .template
  else
    match documentPiece? t with
    | some p => some p
    | none =>
      if headIs isIdentStart t || (t.startsWith "\\" && headIs isIdentStart (t.drop 1)) then
        namePiece? embedded t
      else if headIs isDigit t || (t.startsWith "." && headIs isDigit (t.drop 1)) then
        (numberLength? t).map (.token .number)
      else signPiece? t

/-- The piece that code starts with. -/
def piece? (embedded : Bool) (t : Text) : Option Piece :=
  match trivia? t with
  | none => none
  | some 0 => solidPiece? embedded t
  | some n => some (.blank n)

/-- The length of the text in front of the next opening tag. -/
def inlineLength : Text → Nat
  | [] => 0
  | b :: t => if b == 0x3C && headIs (· == 0x3F) t then 0 else inlineLength t + 1

/-- The opening tag at the start of the text. -/
def openingTag (t : Text) : TokenKind × Nat :=
  if Text.sameIgnoringCase (t.take 5) (.ofString "<?php") then (.openTag, 5)
  else if t.startsWith "<?=" then (.echoTag, 3)
  else (.openTag, 2)

/-- A token of text outside the code, if there is any. -/
def inlineToken (pos : Nat) (t : Text) : List Token :=
  if t.isEmpty then [] else [⟨.inlineText, t, pos⟩]

mutual

/-- The tokens of code that starts at offset `pos`, which may be an embedded expression. -/
def lexCode : (fuel : Nat) → (embedded : Bool) → (pos : Nat) → Text → Option (List Token)
  | 0, _, _, _ => none
  | _ + 1, _, _, [] => some []
  | fuel + 1, embedded, pos, b :: bs =>
    let t : Text := b :: bs
    match piece? embedded t with
    | none => none
    | some (.blank n) => lexCode fuel embedded (pos + n) (t.drop n)
    | some (.token kind n) =>
      (lexCode fuel embedded (pos + n) (t.drop n)).map (⟨kind, t.take n, pos⟩ :: ·)
    | some .close => (lexText fuel (pos + 2) (t.drop 2)).map (⟨.closeTag, t.take 2, pos⟩ :: ·)
    | some (.template p) => do
      let expressions ← p.embeds.mapM fun e => do
        let inner ← lexCode fuel true (pos + e.start) (t.slice e.start (e.start + e.length))
        return ⟨.embedStart, [], pos + e.start⟩ :: inner ++
          [⟨.embedEnd, [], pos + e.start + e.length⟩]
      let after := p.opening + p.between
      let rest ← lexCode fuel embedded (pos + after + p.closing) (t.drop (after + p.closing))
      return ⟨.templateStart, t.take p.opening, pos⟩ :: expressions.flatten ++
        ⟨.templateEnd, t.slice after (after + p.closing), pos + after⟩ :: rest

/-- The tokens of a file that goes on with text outside the code at offset `pos`. -/
def lexText : (fuel pos : Nat) → Text → Option (List Token)
  | 0, _, _ => none
  | fuel + 1, pos, t =>
    let n := inlineLength t
    let (kind, length) := openingTag (t.drop n)
    if n = t.length then some (inlineToken pos t)
    else do
      let rest ← lexCode fuel false (pos + n + length) (t.drop (n + length))
      return inlineToken pos (t.take n) ++ ⟨kind, (t.drop n).take length, pos + n⟩ :: rest

end

/-- The length of the line at the start of a file that names an interpreter, `0` if there is none. -/
def interpreterLength (source : Text) : Nat :=
  if source.startsWith "#!" then
    (source.takeWhile (· != 0x0A)).length + (if source.contains 0x0A then 1 else 0)
  else 0

/-- The tokens of a source file. A line that names an interpreter is text, whatever it holds. -/
def tokens? (source : Text) : Option (List Token) := do
  let n := interpreterLength source
  return inlineToken 0 (source.take n) ++ (← lexText (source.length + 2) n (source.drop n))

end Polyfill.Source
