/-!
# The vocabulary of Polygolf

The words and signs that the language gives a meaning to, and the character classes they are made
of. Reading, highlighting and completion all go by these tables, so a word that is offered as a
keyword is also read and shown as one.

* `Lexicon.opcodes`, `Lexicon.specialForms` — the heads of expressions.
* `Lexicon.aliases` — short names of operators, some of them words and some made of signs.
* `Lexicon.symbolicAlias?` — the longest alias made of signs at the front of a text.
* `Lexicon.nullaryTypes`, `Lexicon.typeConstructors` — the names of types.
-/

namespace GolfAssist.Lexicon

/-! ## Tables -/

/-- The names of operations that can head an expression. -/
def opcodes : List String :=
  ["add", "sub", "mul", "div", "pow", "mod", "bit_and", "bit_or", "bit_xor", "min", "max", "lt",
    "leq", "eq", "neq", "gt", "geq", "or", "and", "array_contains", "list_contains",
    "table_contains_key", "set_contains", "array_get", "list_get", "table_get", "list_push",
    "concat", "repeat", "text_contains", "text_byte_find", "text_codepoint_find", "text_split",
    "text_get_byte", "text_get_byte_slice", "text_get_codepoint", "text_get_codepoint_slice",
    "join", "right_align", "int_to_bin_aligned", "int_to_hex_aligned", "simplify_fraction", "abs",
    "bit_not", "neg", "not", "int_to_text", "int_to_bin", "int_to_hex", "text_to_int",
    "bool_to_int", "int_to_text_byte", "int_to_codepoint", "list_length", "text_byte_length",
    "text_codepoint_length", "text_split_whitespace", "text_byte_reversed",
    "text_codepoint_reversed", "text_byte_to_int", "codepoint_to_int", "true", "false", "print",
    "println", "print_int", "println_int", "text_replace", "array_set", "list_set", "table_set",
    "sorted"]

/-- The heads of expressions that are no plain operation. -/
def specialForms : List String :=
  ["func", "array", "list", "set", "table", "conditional", "unsafe_conditional", "while", "for",
    "for_argv", "if", "any_int"]

/-- The short names of operators. -/
def aliases : List String :=
  ["<-", "+", "-", "*", "^", "&", "|", "~", ">>", "<<", "==", "!=", "<=", "<", ">=", ">", "=>",
    "#", "..", "mod", "rem", "div", "trunc_div"]

/-- The values that take no argument. -/
def constants : List String :=
  ["true", "false"]

/-- The types that take no argument. -/
def nullaryTypes : List String :=
  ["Void", "Bool", "Int", "0..oo", "Text", "Ascii"]

/-- The names that make a type of their arguments. -/
def typeConstructors : List String :=
  ["Text", "Ascii", "List", "Array", "Table", "Set", "Func"]

/-- The sign in front of the name of a variable. -/
def sigil : Char := '$'

/-- The sign in front of a comment, which reaches to the end of its line. -/
def commentMark : Char := '%'

/-! ## Words -/

/-- The character can begin a word. -/
def isWordStart (c : Char) : Bool := c == '_' || c.isAlpha

/-- The character can stand inside a word. -/
def isWordChar (c : Char) : Bool := c == '_' || c.isAlphanum

/-- The name begins like a word, and so is not made of signs. -/
def isWordLike (name : String) : Bool := name.toList.head?.any isWordStart

/-- The word is a short name of an operator. -/
def isAliasWord (word : String) : Bool := aliases.any fun name => name == word && isWordLike name

/-- The word is a value that takes no argument. -/
def isConstant (word : String) : Bool := constants.contains word

/-! ## Signs -/

/-- The aliases that are made of signs. -/
def symbolicAliases : List String := aliases.filter (!isWordLike ·)

/-- The longer of two names, the second one if they are equally long. -/
def longer (a b : String) : String := if b.length < a.length then a else b

/-- The longest alias made of signs that the text begins with. -/
def symbolicAlias? (cs : List Char) : Option String :=
  (symbolicAliases.filter (·.toList.isPrefixOf cs)).foldl
    (fun best name => some (best.elim name (longer · name))) none

end GolfAssist.Lexicon
