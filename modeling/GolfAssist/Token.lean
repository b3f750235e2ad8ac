import GolfAssist.Text.Bytes

/-!
# Tokens

* `Token.Kind` — the sorts of token: atoms, punctuation, comments, and what fits no rule.
* `Token` — a piece of the source with its place in it.

A token keeps its own text, so everything after the lexer works without the source. The last token
of a source has kind `eof` and no text.
-/

namespace GolfAssist

/-- The sorts of token. -/
inductive Token.Kind where
  /-- A sigil and the name after it, which may be empty. -/
  | variable
  /-- Digits with an optional minus sign, or infinity. -/
  | integer
  /-- A literal in double quotes, possibly without its closing quote. -/
  | string
  /-- Letters, digits and underscores, not beginning with a digit. -/
  | word
  /-- An alias of an operator that is made of signs. -/
  | op
  | openParen
  | closeParen
  | openBrace
  | closeBrace
  | colon
  | slash
  | semicolon
  /-- A comment, up to the end of its line. -/
  | lineComment
  /-- One character that no rule takes. -/
  | unknown
  /-- The end of the source. -/
  | eof
deriving DecidableEq, Repr

/-- A piece of the source. -/
structure Token where
  /-- The sort of the token. -/
  kind : Token.Kind
  /-- The byte offset of its first character. -/
  start : Nat
  /-- Its characters as they stand in the source. -/
  text : String
deriving DecidableEq, Repr

namespace Token

/-- The byte offset directly after the token. -/
def stop (t : Token) : Nat := t.start + Text.byteLength t.text.toList

/-- The place of the token in the source. -/
def span (t : Token) : Span := ⟨t.start, t.stop⟩

/-- The token that ends a source of the given length. -/
def ending (length : Nat) : Token := ⟨.eof, length, ""⟩

/-- Comments carry no meaning for the program. -/
def isTrivia (t : Token) : Bool := t.kind = .lineComment

end Token

end GolfAssist
