import Polyfill.Notice.Mention
import Polyfill.Notice.Settings
import Polyfill.Source.Literal
import Polyfill.Source.Tree

/-! # Detecting rename notices

A statement is a rename notice if all it does is announce that the class is renamed or moved. Two calls
of the facade count: a *notice*, if one of the string literals in its arguments carries a trigger, and a
*wrapper*, if all that its callback runs are rename notices. Whatever is in doubt is kept.

* `Judge`: what the detector asks about names and texts.
* `Judge.inspect`: the verdict on a statement, none if it is no call of the facade that counts.
* `Judge.ofSettings`: the judge of given settings, for a file that imports the facade under the given
  names. -/

namespace Polyfill.Notice

open Source

/-- What becomes of a statement. -/
inductive Verdict where
  | remove
  | keep
  deriving DecidableEq

/-- The questions on which a verdict depends. -/
structure Judge where
  /-- The name refers to the facade. -/
  isFacade : Text → Bool
  /-- The method emits a notice. -/
  isNotice : Text → Bool
  /-- The method runs a callback. -/
  isWrapper : Text → Bool
  /-- The text is about the rename. -/
  isTrigger : Text → Bool

/-- The string literals of an argument value, also those in parentheses and under operators of two
operands. -/
def literals : Expr → List Text
  | .string raw => [literalText raw]
  | .parens e => literals e
  | .binary l r => literals l ++ literals r
  | _ => []

namespace Judge

/-- The verdict on a notice: it goes if one of its literals carries a trigger. -/
def notice (j : Judge) (args : List Arg) : Verdict :=
  if (args.flatMap fun a => literals a.value).any j.isTrigger then .remove else .keep

mutual

/-- The verdict on an expression, none if it is no call of the facade that counts. -/
def inspectExpr (j : Judge) : Expr → Option Verdict
  | .parens e => inspectExpr j e
  | .staticCall (.name target) (.named method) args =>
    if j.isFacade target.text then
      if j.isNotice method.text then some (j.notice args)
      else if j.isWrapper method.text then some (inspectCallback j args)
      else none
    else none
  | _ => none

/-- The verdict on a wrapper by its arguments, of which the first is the callback. -/
def inspectCallback (j : Judge) : List Arg → Verdict
  | [] => .keep
  | .mk _ callback :: _ => inspectFunction j callback

/-- The verdict on a wrapper by its callback: what the callback runs must go as a whole. -/
def inspectFunction (j : Judge) : Expr → Verdict
  | .parens e => inspectFunction j e
  | .closure _ (.mk _ _ statements) =>
    if !statements.isEmpty && allRemoved j statements then .remove else .keep
  | .arrow _ e => (inspectExpr j e).getD .keep
  | _ => .keep

/-- All statements are rename notices. -/
def allRemoved (j : Judge) : List Stmt → Bool
  | [] => true
  | s :: ss => inspect j s == some .remove && allRemoved j ss

/-- **The verdict on a statement**, none if it is no call of the facade that counts. -/
def inspect (j : Judge) : Stmt → Option Verdict
  | .expression _ e => inspectExpr j e
  | _ => none

end

/-- The verdict on a statement; what is no call of the facade is kept. -/
def classify (j : Judge) (s : Stmt) : Verdict := (j.inspect s).getD .keep

/-- The statement goes. -/
def removes (j : Judge) (s : Stmt) : Bool := j.classify s == .remove

/-- The judge of the settings, for a file that also knows the facade under the names `aliases`, and for
an entry with the given tokens. An alias only counts where it is written unqualified. -/
def ofSettings (settings : Settings) (aliases : List Text) (tokens : List Token) : Judge where
  isFacade name :=
    Text.sameIgnoringCase (Name.shortName name) settings.facade ||
      aliases.any (Text.sameIgnoringCase · name)
  isNotice method := settings.noticeMethods.any (Text.sameIgnoringCase · method)
  isWrapper method := settings.wrapperMethods.any (Text.sameIgnoringCase · method)
  isTrigger text :=
    containsPhrase settings.phrases text ||
      (settings.configAware && !tokens.isEmpty && mentionedIn tokens text)

end Judge

end Polyfill.Notice
