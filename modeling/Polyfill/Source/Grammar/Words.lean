/-! # Keywords

No keyword is lost as the name of a member: there any word will do. A value and a class have no keyword for their
name. Elsewhere a keyword only matters where a rule looks for it. -/

namespace Polyfill.Source

/-- The words that stand for the place in the source. -/
def placeWords : List String :=
  ["__line__", "__file__", "__dir__", "__function__", "__class__", "__trait__", "__method__",
    "__namespace__", "__property__"]

/-- The words that stand for values: the constants of the language and of the place in the source. -/
def constantWords : List String := ["true", "false", "null"] ++ placeWords

/-- The words that stand for the class at hand. -/
def classWords : List String := ["self", "parent", "static"]

/-- The keywords that name neither a type nor a value nor a class. -/
def reservedWords : List String :=
  ["abstract", "and", "as", "break", "case", "catch", "class", "clone", "const", "continue", "declare",
    "default", "do", "echo", "else", "elseif", "empty", "enddeclare", "endfor", "endforeach", "endif",
    "endswitch", "endwhile", "eval", "exit", "die", "extends", "final", "finally", "fn", "for",
    "foreach", "function", "global", "goto", "if", "implements", "include", "include_once",
    "instanceof", "insteadof", "interface", "isset", "list", "match", "namespace", "new", "or", "print",
    "private", "protected", "public", "require", "require_once", "return", "switch", "throw", "trait", "try",
    "unset", "use", "var", "while", "xor", "yield"]

/-- The keywords that name no type. -/
def untypedWords : List String :=
  reservedWords ++ ["private(set)", "protected(set)", "public(set)", "readonly"] ++ placeWords

/-- The keywords that name no class. -/
def unclassedWords : List String := reservedWords ++ ["array", "callable", "static"]

/-- The words in front of a class, a member or a promoted parameter. -/
def modifierWords : List String :=
  ["public", "protected", "private", "public(set)", "protected(set)", "private(set)", "static",
    "abstract", "final", "readonly"]

end Polyfill.Source
