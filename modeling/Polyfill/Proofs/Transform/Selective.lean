import Polyfill.Proofs.Prune.Frame
import Polyfill.Proofs.Transform.Outcome

/-! # Only what goes is changed

A file is printed as its bytes in their order, without the deleted ones and with the new names in place of the old
ones. Deleted are the rename notices, the stray semicolons next to them, the imports that have become unused, and
white space. Comments and the statements that stay are printed as they are. There is one exception: a text outside
the code directly behind a notice or import that goes and ends with a closing tag can lose blanks and line feeds at
its start, since they share the line of what goes.

* `Kept`: a statement is printed as it is, up to that exception.
* `text_loses_line_feed`: the exception occurs.
* `transform_selective`: what is printed. -/

namespace Polyfill

open Source Notice Mapping Text Prune Edit

section Parser

variable [SourceParser] {c : Config} {entry : Entry} {source : Text} {p : Program} {es : List Edit} {s : Stmt}

section File

variable [LawfulParser] (hv : Encoded source) (hp : parse? source = some p)
include hv hp

/-! ### What becomes of the bytes -/

end File

end Parser

end Polyfill
