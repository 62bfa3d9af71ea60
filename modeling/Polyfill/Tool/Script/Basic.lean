import Polyfill.Text.Basic

/-! # Scripts

A script is a list of lines, each of them a list of commands. A command is a row of words or is built from
other commands. A word is a list of pieces, some of which are known only when the script runs. -/

namespace Polyfill.Tool

/-- What happens when a parameter has no value. -/
inductive Substitute where
  /-- The word takes the place of the value. -/
  | fallback
  /-- The word takes the place of the value and becomes the value. -/
  | assign
  /-- The script ends. -/
  | demand
  /-- Nothing; the word takes the place of a value that is there. -/
  | instead
  deriving DecidableEq

mutual

/-- A piece of a word. A quoted piece stays as it is, whatever it holds. -/
inductive Piece where
  | literal (text : Text) (isQuoted : Bool)
  /-- The value of a parameter. -/
  | parameter (name : Text) (isQuoted : Bool)
  /-- The number of bytes in the value of a parameter. -/
  | measure (name : Text) (isQuoted : Bool)
  /-- The value of a parameter, or a word; `emptyToo` tells that an empty value is no value. -/
  | substitute (name : Text) (how : Substitute) (emptyToo : Bool) (word : List Piece) (isQuoted : Bool)
  /-- The value of a parameter without what a pattern matches at one of its ends. -/
  | trim (name : Text) (atFront isLongest : Bool) (pattern : List Piece) (isQuoted : Bool)
  /-- What a script prints. -/
  | output (script : List Command) (isQuoted : Bool)
  /-- The value of an arithmetic expression. -/
  | number (expression : List Piece) (isQuoted : Bool)

/-- A word that becomes the value of a variable. -/
inductive Assignment where
  | mk (name : Text) (word : List Piece)

/-- A change of where a stream of a command leads. -/
inductive Redirect where
  | toFile (stream : Nat) (path : List Piece) (append : Bool)
  /-- To where another stream leads. -/
  | copy (stream : Nat) (other : List Piece)
  | fromFile (path : List Piece)
  | fromText (text : List Piece)

/-- The commands for the words that match one of the patterns. -/
inductive Arm where
  | mk (patterns : List (List Piece)) (body : List Command)

/-- A command. -/
inductive Command where
  /-- A program with its arguments and changes of its streams, or just assignments. -/
  | simple (assignments : List Assignment) (words : List (List Piece)) (changes : List Redirect)
  | redirected (body : Command) (changes : List Redirect)
  | group (body : List Command)
  /-- Commands that keep their changes of variables to themselves. -/
  | enclosed (body : List Command)
  | negated (body : Command)
  /-- The second command runs if the first succeeds. -/
  | both (first second : Command)
  /-- The second command runs if the first fails. -/
  | either (first second : Command)
  /-- The second command reads what the first prints. -/
  | piped (first second : Command)
  /-- A command that nobody waits for. -/
  | detached (body : Command)
  | choice (test yes no : List Command)
  /-- Run the body as long as the test succeeds, or until it does. -/
  | loop (untilSuccess : Bool) (test body : List Command)
  /-- Run the body for each of the words, or for each argument of the script. -/
  | each (name : Text) (words : Option (List (List Piece))) (body : List Command)
  | select (word : List Piece) (arms : List Arm)
  | define (name : Text) (body : Command)

end

/-- A word before its parameters have values. -/
abbrev Word := List Piece

/-- The lines of a script. -/
structure Script where
  lines : List (List Command)
  /-- All of the text is read; otherwise the line after the last one makes no sense. -/
  isWhole : Bool

end Polyfill.Tool
