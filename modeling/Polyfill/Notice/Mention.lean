import Polyfill.Mapping.Entry
import Polyfill.Text.Search

/-! # Mentions of an entry's names

A notice is tied to an entry by its names: the old and the new namespace and the old and the new
simple name. A name counts as mentioned where it stands as a whole name, neither inside a longer
word nor as one side of a member access (`::` or `->`). A class may close a qualified name; a
namespace may begin one.

* `Token.standsBetween`: the rule for one place, given what comes before and after it.
* `mentionedIn`: some token stands somewhere in a text, by a leftmost scan without overlaps. -/

namespace Polyfill.Notice

/-- What a name in a message refers to. -/
inductive TokenKind where
  | namespaceName
  | className
  deriving DecidableEq

/-- A name that ties a message to an entry. -/
structure Token where
  text : Text
  kind : TokenKind
  deriving DecidableEq

/-- A text of bytes in reverse order ends, read forward, with a member operator. -/
def endsInMemberOperator : Text → Bool
  | 0x3E :: 0x2D :: _ => true
  | 0x3A :: 0x3A :: _ => true
  | _ => false

/-- The text starts with a member operator. -/
def startsWithMemberOperator : Text → Bool
  | 0x2D :: 0x3E :: _ => true
  | 0x3A :: 0x3A :: _ => true
  | _ => false

/-- A name of the given kind can begin behind the text whose bytes are `before`, in reverse order.
A namespace behind a separator must be fully qualified. -/
def opensName (kind : TokenKind) (before : Text) : Bool :=
  if endsInMemberOperator before then false
  else
    match before with
    | [] => true
    | b :: rest =>
      if isIdentByte b then false
      else if b = Name.separator then
        match kind with
        | .className => true
        | .namespaceName => !startsInIdent rest
      else true

/-- A name of the given kind can end in front of the text `after`. -/
def closesName (kind : TokenKind) (after : Text) : Bool :=
  if startsWithMemberOperator after then false
  else
    match after with
    | [] => true
    | b :: _ =>
      if isIdentByte b then false
      else if b = Name.separator then kind == .namespaceName
      else true

namespace Token

/-- The token can stand between `before` and `after`. -/
def standsBetween (k : Token) (before after : Text) : Bool :=
  opensName k.kind before.reverse && closesName k.kind after

/-- The token stands in the text as a whole name at one of the hits of a leftmost scan. -/
def standsIn (k : Token) (text : Text) : Bool :=
  (Text.occurrences k.text text).any fun i =>
    k.standsBetween (text.take i) (text.drop (i + k.text.length))

end Token

/-- A token that is not empty and not there yet, at the end of the list. -/
def addToken (ks : List Token) (k : Token) : List Token :=
  if k.text.isEmpty || ks.contains k then ks else ks ++ [k]

/-- The names that tie a message to the entry. -/
def tokensOf (e : Mapping.Entry) : List Token :=
  [⟨e.targetNamespace, .namespaceName⟩, ⟨e.targetClass, .className⟩,
    ⟨e.sourceNamespace, .namespaceName⟩, ⟨e.sourceClass, .className⟩].foldl addToken []

/-- One of the tokens is mentioned in the text. -/
def mentionedIn (ks : List Token) (text : Text) : Bool := ks.any (·.standsIn text)

/-- The text contains one of the phrases. -/
def containsPhrase (phrases : List Text) (text : Text) : Bool :=
  phrases.any fun p => !p.isEmpty && Text.includes p text

end Polyfill.Notice
