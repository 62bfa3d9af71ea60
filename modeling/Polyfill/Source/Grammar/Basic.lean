import Polyfill.Scan
import Polyfill.Source.Token
import Polyfill.Source.Tree

/-! # Reading tokens

A parser reads from a list of tokens and remembers where the last one it took ended, so that the place
of what it has read is known. It carries the proof that it does nothing else to its cursor, so every rule
of the grammar reads a run of tokens from the front. `Rules` holds the two parsers that everything else
refers back to; it is what ties the grammar of expressions and that of statements together. -/

namespace Polyfill.Source

/-- The tokens to be read, and the offset behind the last one read. -/
structure Cursor where
  tokens : List Token
  last : Nat := 0

/-- The offset behind the last of the tokens, `last` if there are none. -/
def endOf (last : Nat) : List Token → Nat
  | [] => last
  | t :: ts => endOf t.stop ts

theorem endOf_append (last : Nat) : ∀ ts us : List Token,
    endOf last (ts ++ us) = endOf (endOf last ts) us
  | [], _ => rfl
  | t :: ts, us => endOf_append t.stop ts us

/-- Reading the tokens `ts` leads from one cursor to the other. -/
structure Cursor.Reads (c : Cursor) (ts : List Token) (c' : Cursor) : Prop where
  tokens : c.tokens = ts ++ c'.tokens
  last : c'.last = endOf c.last ts

namespace Cursor.Reads

theorem refl (c : Cursor) : c.Reads [] c := ⟨rfl, rfl⟩

theorem trans {c c' c'' : Cursor} {ts us : List Token} (h : c.Reads ts c') (h' : c'.Reads us c'') :
    c.Reads (ts ++ us) c'' where
  tokens := by rw [h.tokens, h'.tokens, List.append_assoc]
  last := by rw [h'.last, h.last, endOf_append]

end Cursor.Reads

/-- A parser of tokens. All it does to a cursor is to read tokens from its front. -/
structure Parser (α : Type) where
  run : Cursor → Option (α × Cursor)
  reads : ∀ {c a c'}, run c = some (a, c') → ∃ ts, c.Reads ts c'

namespace Parser

variable {α β : Type}

/-- Give a value and read nothing. -/
protected def pure (a : α) : Parser α where
  run c := some (a, c)
  reads {c _ _} h := by
    cases h
    exact ⟨[], .refl c⟩

/-- Run a parser, and then the one that its value leads to. -/
protected def bind (p : Parser α) (f : α → Parser β) : Parser β where
  run c :=
    match p.run c with
    | none => none
    | some (a, c') => (f a).run c'
  reads {c _ _} h := by
    split at h
    · cases h
    · next hp =>
      obtain ⟨ts, h₁⟩ := p.reads hp
      obtain ⟨us, h₂⟩ := (f _).reads h
      exact ⟨ts ++ us, h₁.trans h₂⟩

instance : Monad Parser where
  pure := Parser.pure
  bind := Parser.bind

/-- Run the second parser where the first one fails. -/
protected def orElse (p : Parser α) (q : Unit → Parser α) : Parser α where
  run c :=
    match p.run c with
    | none => (q ()).run c
    | some r => some r
  reads h := by
    split at h
    · exact (q ()).reads h
    · next hp =>
      cases h
      exact p.reads hp

instance : Alternative Parser where
  failure := { run := fun _ => none, reads := nofun }
  orElse := Parser.orElse

/-- A parser that is only put together where it is run. -/
def delayed (p : Unit → Parser α) : Parser α where
  run c := (p ()).run c
  reads h := (p ()).reads h

/-- What a cursor shows, left in place. -/
def look (f : Cursor → α) : Parser α where
  run c := some (f c, c)
  reads {c _ _} h := by
    cases h
    exact ⟨[], .refl c⟩

end Parser

/-- The parsers that the rules of the grammar refer back to. -/
structure Rules where
  /-- An expression whose operators bind at least as strongly as the given level. -/
  expr : (level : Nat) → Parser Expr
  /-- A statement. -/
  statement : Parser Stmt

namespace Parser

open Scan

/-- The kind of the token `n` places ahead. -/
def kindAt (n : Nat) : Parser (Option TokenKind) := look fun c => c.tokens[n]?.map (·.kind)

/-- The kind of the next token. -/
def kind : Parser (Option TokenKind) := kindAt 0

/-- The next token has the given kind. -/
def at? (k : TokenKind) : Parser Bool := return (← kind) == some k

/-- The next token is the given sign. -/
def sees (s : String) : Parser Bool := at? (.sign s)

/-- The next token is the given keyword. -/
def seesWord (w : String) : Parser Bool := at? (.word w)

/-- Read the next token. -/
def next : Parser Token where
  run c :=
    match c.tokens with
    | [] => none
    | t :: ts => some (t, { tokens := ts, last := t.stop })
  reads h := by
    split at h
    · cases h
    · next hc =>
      cases h
      exact ⟨[_], hc, rfl⟩

/-- Read a token of the given kind. -/
def take (k : TokenKind) : Parser Token := do
  let t ← next
  ensure (t.kind == k)
  return t

/-- Read the next token if it has the given kind, and tell whether it had. -/
def acceptKind (k : TokenKind) : Parser Bool := do
  if ← at? k then
    let _ ← next
    return true
  else return false

/-- Read the given sign if it comes next, and tell whether it did. -/
def accept (s : String) : Parser Bool := acceptKind (.sign s)

/-- Read the given keyword if it comes next, and tell whether it did. -/
def acceptWord (w : String) : Parser Bool := acceptKind (.word w)

/-- Read the given sign. -/
def expect (s : String) : Parser Unit := do
  let _ ← take (.sign s)

/-- Read the given keyword. -/
def expectWord (w : String) : Parser Unit := do
  let _ ← take (.word w)

/-- The offset of the next token. -/
def here : Parser Nat := look fun c =>
  match c.tokens with
  | [] => c.last
  | t :: _ => t.start

/-- The offset behind the last token read. -/
def behind : Parser Nat := look (·.last)

/-- The place of what has been read since the offset `start`. -/
def spanFrom (start : Nat) : Parser Span := return ⟨start, ← behind⟩

/-- How many tokens are left. -/
def remaining : Parser Nat := look (·.tokens.length)

/-- Read items as long as `step` gives one. -/
def many {α : Type} (step : Parser (Option α)) : Parser (List α) := do
  collect step ((← remaining) + 1)

/-- Read items up to a token that meets the condition, which is left in place. -/
def manyUntil {α : Type} (stop : TokenKind → Bool) (item : Parser α) : Parser (List α) :=
  many do
    match ← kind with
    | none => refuse
    | some k => if stop k then return none else return some (← item)

/-- Read one item and further ones after commas. -/
def sepBy1 {α : Type} (item : Parser α) : Parser (List α) := do
  let first ← item
  let more ← many do
    if ← accept "," then return some (← item) else return none
  return first :: more

/-- Read items with commas between them, and possibly behind the last, up to a token that meets the
condition, which is left in place. -/
def sepUntil {α : Type} (stop : TokenKind → Bool) (item : Parser α) : Parser (List α) := do
  let stops : Parser Bool := return (← kind).any stop
  many do
    if ← stops then return none
    let a ← item
    unless ← stops do
      expect ","
    return some a

/-- Read items with commas between them, and possibly behind the last, up to the closing sign, which is
read, too. -/
def sepTo {α : Type} (close : String) (item : Parser α) : Parser (List α) := do
  let items ← sepUntil (· == .sign close) item
  expect close
  return items

/-- The name of a token. -/
def identOf (t : Token) : Ident := ⟨t.text, ⟨t.start, t.stop⟩⟩

/-- Read a word, be it a keyword or not. -/
def word : Parser Ident := do
  let t ← next
  match t.kind with
  | .word _ => return identOf t
  | _ => refuse

/-- The token ends a statement. -/
def isTerminator (k : TokenKind) : Bool := k == .sign ";" || k == .closeTag

/-- Read the end of a statement if it comes next: a semicolon, or a closing tag with the opening tag that
follows it directly. -/
def acceptTerminator : Parser Bool := do
  if ← accept ";" then return true
  if ← acceptKind .closeTag then
    let _ ← acceptKind .openTag
    return true
  return false

/-- The end of a statement. -/
def terminator : Parser Unit := do
  ensure (← acceptTerminator)

end Parser

end Polyfill.Source
