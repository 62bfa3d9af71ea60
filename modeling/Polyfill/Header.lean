import Polyfill.Text.Blank
import Polyfill.Text.Search

/-! # The header of a generated file

A generated file starts with a banner: the open tag and a comment that names the class it was made
from. It takes the place of the file's prologue, that is the byte-order mark, the open tag and a block
comment directly in front of the `namespace` or `declare` statement. A comment in front of anything
else belongs to what follows it and stays. -/

namespace Polyfill.Header

/-- The phrase by which generated files are recognized. -/
def marker : String := "Forward-compatibility polyfill for"

/-- The banner of a file made from the class `identity`. -/
def banner (identity : Text) : Text :=
  .ofString ("<?php\n\n/**\n * " ++ marker ++ " ") ++ identity ++
    .ofString (".\n *\n * This file is generated from the upstream source. Do not edit it by hand.\n" ++
      " */\n\n")

/-- The encoding of the byte-order mark. -/
def byteOrderMark : Text := [0xEF, 0xBB, 0xBF]

/-- The text without a byte-order mark at its start. -/
def dropByteOrderMark (t : Text) : Text :=
  if byteOrderMark.isPrefixOf t then t.drop byteOrderMark.length else t

/-- The text starts with the keyword, in any case and not as part of a longer identifier. -/
def startsWithKeyword (keyword : String) (t : Text) : Bool :=
  let k := Text.ofString keyword
  Text.sameIgnoringCase (t.take k.length) k && !startsInIdent (t.drop k.length)

/-- The text starts with the keyword of a statement that a file comment precedes. -/
def startsFileStatement (t : Text) : Bool :=
  startsWithKeyword "namespace" t || startsWithKeyword "declare" t

/-- The text behind an open tag and the white space after it; the text itself if it has no open tag
that white space or the end of the text follows. -/
def dropOpenTag (t : Text) : Text :=
  let tag := t.trimStart
  let after : Text := tag.drop 5
  if Text.sameIgnoringCase (tag.take 5) (.ofString "<?php") && (after.isEmpty || after.startsBlank)
  then after.trimStart else t

/-- The text behind a block comment and the white space after it, if that is a `namespace` or
`declare` statement. -/
def dropFileComment (t : Text) : Text :=
  if t.startsWith "/*" then
    match Text.after? (.ofString "*/") t with
    | none => t
    | some after => if startsFileStatement after.trimStart then after.trimStart else t
  else t

/-- The source without its prologue. -/
def stripPrologue (source : Text) : Text := dropFileComment (dropOpenTag (dropByteOrderMark source))

/-- The text with the banner in place of its prologue. -/
def apply (text identity : Text) : Text := banner identity ++ stripPrologue text

end Polyfill.Header
