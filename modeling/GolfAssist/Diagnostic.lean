import GolfAssist.Text.Lines
import GolfAssist.Token.Lexer

/-!
# Problems and diagnostics

* `Problem` — what can be wrong with a source, by cause; `Problem.message` puts it into words.
* `Finding` — a problem at a place.
* `Finding.ofToken?` — the problem a token has by itself, before any grammar is looked at.
* `Diagnostic` — a finding as a reader sees it, and `Diagnostic.report`, the listing of many.

A report lists the diagnostics by place and then by wording, so it does not depend on the order in
which they were found.
-/

namespace GolfAssist

/-! ## Causes -/

/-- What the grammar asked for and did not get. -/
inductive Wanted where
  | closeParen
  | closeBrace
  | type
  | rangeBound
deriving DecidableEq, Repr

/-- What is asked for, as a message names it. -/
def Wanted.describe : Wanted → String
  | .closeParen => "`)`"
  | .closeBrace => "`\x7d`"
  | .type => "type"
  | .rangeBound => "range bound"

/-- What can be wrong with a source. -/
inductive Problem where
  /-- A character that no rule of the lexer takes. -/
  | unknownCharacter (text : String)
  /-- A string literal without its closing quote. -/
  | unterminatedString
  /-- A closer or a separator where nothing is open. -/
  | stray (text : String)
  /-- A slash inside parentheses. -/
  | slashOutsideBraces
  /-- A colon without an expression in front of it. -/
  | bareColon
  /-- Something is missing in front of the text that was found, or of the end of the source. -/
  | missing (wanted : Wanted) (found : Option String)
deriving DecidableEq, Repr

/-- The problem in words. -/
def Problem.message : Problem → String
  | .unknownCharacter text => "unexpected char '" ++ text ++ "'"
  | .unterminatedString => "unterminated string literal"
  | .stray text => "unexpected `" ++ text ++ "`"
  | .slashOutsideBraces => "unexpected `/` outside of `\x7b \x7d`"
  | .bareColon => "expected expression before `:`"
  | .missing wanted (some text) => "expected " ++ wanted.describe ++ ", found `" ++ text ++ "`"
  | .missing wanted none => "expected " ++ wanted.describe ++ ", found end of input"

/-- A problem and the part of the source that has it. -/
structure Finding where
  /-- What is wrong. -/
  problem : Problem
  /-- Where it is wrong. -/
  span : Span
deriving DecidableEq, Repr

/-- The literal has a closing quote. -/
def Token.isClosedLiteral (t : Token) : Bool := closesLiteral t.text.toList.tail

/-- What is wrong with a token by itself: it is an unknown character, or a literal that is not
closed. -/
def Finding.ofToken? (t : Token) : Option Finding :=
  match t.kind with
  | .unknown => some ⟨.unknownCharacter t.text, t.span⟩
  | .string => if t.isClosedLiteral then none else some ⟨.unterminatedString, t.span⟩
  | _ => none

/-! ## Diagnostics -/

/-- A message about a part of the source. -/
structure Diagnostic where
  /-- The words of the message. -/
  message : String
  /-- The part of the source it is about. -/
  span : Span
deriving DecidableEq, Repr

/-- The finding in words. -/
def Finding.diagnostic (f : Finding) : Diagnostic := ⟨f.problem.message, f.span⟩

namespace Diagnostic

/-- The order of a report: by the start of the span, then by its end, then by the message. -/
def le (a b : Diagnostic) : Bool :=
  if a.span.start ≠ b.span.start then a.span.start < b.span.start
  else if a.span.stop ≠ b.span.stop then a.span.stop < b.span.stop
  else a.message ≤ b.message

/-- The two lines of one diagnostic, in a source with the given line starts. -/
def lines (starts : List Nat) (d : Diagnostic) : String :=
  let place := Text.Position.ofOffset starts d.span.start
  "error: " ++ d.message ++ "\n  --> <input>:" ++ toString place.line ++ ":"
    ++ toString place.column ++ " [" ++ toString d.span.start ++ ".." ++ toString d.span.stop
    ++ "]\n"

/-- The listing of diagnostics about a source. -/
def report (source : String) (diagnostics : List Diagnostic) : String :=
  let starts := Text.lineStarts source.toList
  String.join ((diagnostics.mergeSort le).map (lines starts))

end Diagnostic

end GolfAssist
