import GolfAssist.Reader.Step

/-!
# Documents

* `Document` — a source with all that reading it yields: its tokens, its tree and what is wrong
  with it.
* `Document.read` — the document of a source. Every source has one.
* `Document.diagnostics` — what is wrong in words: first what the grammar has to say, then what the
  tokens have by themselves.
-/

namespace GolfAssist

/-- A source that has been read. -/
structure Document where
  /-- The text. -/
  source : String
  /-- Its tokens, the last one marking its end. -/
  tokens : List Token
  /-- Its syntax tree. -/
  tree : Node
  /-- Where it breaks the rules of the grammar, in the order of reading. -/
  findings : List Finding
deriving Repr

namespace Document

/-- Reads a source. -/
def read (source : String) : Document :=
  let tokens := Token.lex source
  let length := Text.byteLength source.toList
  let reader := Reader.read (.ending length) (.start length) tokens
  ⟨source, tokens, reader.builder.finish, reader.findings.reverse⟩

/-- What is wrong with the tokens by themselves. -/
def lexicalFindings (d : Document) : List Finding := d.tokens.filterMap Finding.ofToken?

/-- All that is wrong with the source, in words. -/
def diagnostics (d : Document) : List Diagnostic :=
  (d.findings ++ d.lexicalFindings).map (·.diagnostic)

end Document

end GolfAssist
