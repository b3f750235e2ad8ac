/-!
# Kinds of nodes

* `Node.Kind` — what a node of the syntax tree stands for.
* `Node.Kind.name` — the name under which listings and styles know it.
-/

namespace GolfAssist

/-- What a node of the syntax tree stands for. -/
inductive Node.Kind where
  /-- The whole source. -/
  | program
  /-- An expression in parentheses. -/
  | sexpr
  /-- Alternatives in braces, divided by slashes. -/
  | variants
  /-- An expression with its type. -/
  | typedExpr
  | variable
  | integer
  | string
  /-- A word that names an operation. -/
  | builtin
  /-- A word that names a value. -/
  | nullary
  /-- A short name of an operator. -/
  | opalias
  | typeName
  /-- A type in parentheses. -/
  | typeSexpr
  /-- A range of integers as a type. -/
  | typeRange
  | lineComment
  | openParen
  | closeParen
  | openBrace
  | closeBrace
  | colon
  | slash
  | semicolon
  /-- A token that does not belong where it stands. -/
  | error
deriving DecidableEq, Repr

/-- The name under which listings and styles know the kind. -/
def Node.Kind.name : Node.Kind → String
  | .program => "Program"
  | .sexpr => "Sexpr"
  | .variants => "Variants"
  | .typedExpr => "Typed_expr"
  | .variable => "Variable"
  | .integer => "Integer"
  | .string => "String"
  | .builtin => "Builtin"
  | .nullary => "Nullary"
  | .opalias => "Opalias"
  | .typeName => "Type_name"
  | .typeSexpr => "Type_sexpr"
  | .typeRange => "Type_range"
  | .lineComment => "LineComment"
  | .openParen => "("
  | .closeParen => ")"
  | .openBrace => "\x7b"
  | .closeBrace => "\x7d"
  | .colon => ":"
  | .slash => "/"
  | .semicolon => ";"
  | .error => "⚠"

end GolfAssist
