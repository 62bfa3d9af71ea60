import Polyfill.Document.Value

/-! # Parsers of documents

The library works on the content of a mapping document and leaves it to a parser to read it. -/

namespace Polyfill.Document

/-- A parser of documents. -/
class DocumentParser where
  /-- The top-level entries of a document, if it is well-formed. -/
  parse : Text → Option (List (Text × Value))

/-- The top-level entries of a document, if it is well-formed. -/
def parse [DocumentParser] (document : Text) : Option (List (Text × Value)) := DocumentParser.parse document

end Polyfill.Document
