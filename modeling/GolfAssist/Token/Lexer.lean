import GolfAssist.Lexicon
import GolfAssist.Text.Class
import GolfAssist.Token

/-!
# From text to tokens

* `Token.munch` — the rule of the language for one token: which sort it has and how far it
  reaches, given its first character and the text after it.
* `Token.scan` — the tokens of a text, blanks between them skipped.
* `Token.lex` — the tokens of a source, with the token that ends it.

Every character that is not blank begins some token, so lexing never fails. A rule says how many of
the following characters belong to the token; `scan` passes over that many and goes on behind
them.
-/

namespace GolfAssist.Token

open Lexicon (isWordChar isWordStart symbolicAlias?)

/-! ## Lengths of runs -/

/-- How many characters at the front of the text are in the class. -/
def run (p : Char → Bool) (cs : List Char) : Nat := (cs.takeWhile p).length

/-- The text begins with an infinity that is not part of a longer word. -/
def startsInfinity : List Char → Bool
  | 'o' :: 'o' :: cs => !cs.head?.any isWordChar
  | _ => false

/-- How many characters after an opening quote belong to the literal: all up to the first quote
that no backslash precedes, or all there are. -/
def literalLength : List Char → Nat
  | [] => 0
  | '"' :: _ => 1
  | '\\' :: _ :: cs => literalLength cs + 2
  | _ :: cs => literalLength cs + 1

/-- The text after an opening quote has a quote that no backslash precedes. -/
def closesLiteral : List Char → Bool
  | [] => false
  | '"' :: _ => true
  | '\\' :: _ :: cs => closesLiteral cs
  | _ :: cs => closesLiteral cs

/-! ## One token -/

/-- The sort of a token that is always one character. -/
def punctuation? : Char → Option Kind
  | '(' => some .openParen
  | ')' => some .closeParen
  | '\x7b' => some .openBrace
  | '\x7d' => some .closeBrace
  | ':' => some .colon
  | '/' => some .slash
  | ';' => some .semicolon
  | _ => none

/-- The token that begins with `c`, when the text goes on with `cs`: its sort, and how many
characters of `cs` belong to it. -/
def munch (c : Char) (cs : List Char) : Kind × Nat :=
  if c = Lexicon.commentMark then (.lineComment, run (· != '\n') cs)
  else if c = Lexicon.sigil then (.variable, run isWordChar cs)
  else if c = '"' then (.string, literalLength cs)
  else if let some kind := punctuation? c then (kind, 0)
  else if c.isDigit then (.integer, run Char.isDigit cs)
  else if c = '-' ∧ cs.head?.any Char.isDigit then (.integer, run Char.isDigit cs)
  else if c = '-' ∧ startsInfinity cs then (.integer, 2)
  else if isWordStart c then
    let length := run isWordChar cs
    (if c :: cs.take length = ['o', 'o'] then .integer else .word, length)
  else
    match symbolicAlias? (c :: cs) with
    | some name => (.op, name.length - 1)
    | none => (.unknown, 0)

/-! ## All tokens -/

/-- The tokens of a text that stands at `offset` in its source, after the first `skip`
characters. -/
def scan : (skip offset : Nat) → List Char → List Token
  | _, _, [] => []
  | skip + 1, offset, c :: cs => scan skip (offset + c.utf8Size) cs
  | 0, offset, c :: cs =>
    if Text.isBlank c then scan 0 (offset + c.utf8Size) cs
    else
      let (kind, length) := munch c cs
      ⟨kind, offset, String.ofList (c :: cs.take length)⟩
        :: scan length (offset + c.utf8Size) cs

/-- The tokens of a source, the last one marking its end. -/
def lex (source : String) : List Token :=
  scan 0 0 source.toList ++ [ending (Text.byteLength source.toList)]

end GolfAssist.Token
