import GolfAssist.Completion.Candidate
import GolfAssist.Highlight
import GolfAssist.Text.Units

/-!
# The library as an editor sees it

Editors place everything by UTF-16 code units and name lines and columns in words of 32 bits.

* `Editor.range`, `Editor.SpanView` — spans in the coordinates of an editor.
* `Editor.complete`, `Editor.highlights`, `Editor.diagnostics` — the answers of the library in
  these coordinates.
* `Editor.CompletionView`, `Editor.completion` — completion in the words that editors know.
* `Editor.languageData` — the vocabulary, for editors that style text on their own.
-/

namespace GolfAssist.Editor

/-- A span in code units. -/
def range (source : List Char) (span : Span) : Span :=
  ⟨Text.unitOfByte span.start source, Text.unitOfByte span.stop source⟩

/-- A span in code units with the place where it starts. -/
structure SpanView where
  /-- The span in code units. -/
  range : Span
  /-- The line of its start; lines beyond 32 bits wrap around. -/
  line : UInt32
  /-- The column of its start, in bytes; columns beyond 32 bits wrap around. -/
  column : UInt32
deriving DecidableEq, Repr

/-- A span as an editor shows it, in a source with the given line starts. -/
def spanView (source : List Char) (starts : List Nat) (span : Span) : SpanView :=
  let place := Text.Position.ofOffset starts span.start
  ⟨range source span, place.line.toUInt32, place.column.toUInt32⟩

/-- The spans of a source as an editor shows them. -/
def spanViews (source : String) (spans : List Span) : List SpanView :=
  let chars := source.toList
  spans.map (spanView chars (Text.lineStarts chars))

/-! ## Answers -/

/-- What is offered at a cursor in code units, with the anchor in code units. Settings that cannot
be read are reported before a cursor that does not fit. -/
def complete (source : String) (cursor : Nat) (explicit : Bool) (config? : Option String) :
    Except RequestError (Option Completion) := do
  let config ← match config? with
    | some text => Completion.Config.parse text
    | none => .ok .default
  let offset ← match Text.byteOfUnit? cursor source.toList with
    | some offset => .ok offset
    | none => .error .invalidCursor
  let found ← Completion.complete source offset explicit config
  return found.map fun c => { c with anchor := Text.unitOfByte c.anchor source.toList }

/-- The name by which editors know a context. -/
def contextName : Completion.Context → String
  | .variableReference => "VariableReference"
  | .typePosition => "TypePosition"
  | .general => "General"

/-- The name by which editors know a group of candidates. -/
def groupName : Completion.Candidate.Kind → String
  | .type => "type"
  | .keyword => "keyword"
  | .variable => "variable"

/-- A text that is offered, as an editor shows it. -/
structure CandidateView where
  /-- What is shown, and inserted when it is accepted. -/
  label : String
  /-- The name of its group. -/
  kind : String
  /-- The number of its preference, left out if it has none. -/
  boost : Option Nat
deriving DecidableEq, Repr

/-- What is offered at a cursor, as an editor shows it. -/
structure CompletionView where
  /-- The name of the context. -/
  context : String
  /-- The offset in code units from which an accepted candidate replaces text up to the cursor. -/
  anchor : Nat
  /-- What is offered. -/
  items : List CandidateView
deriving DecidableEq, Repr

/-- A candidate in the words that editors know. -/
def candidateView (c : Completion.Candidate) : CandidateView :=
  ⟨c.label, groupName c.kind, c.boost.map (·.value)⟩

/-- What an editor gets at a cursor in code units: a view, nothing, or the words of an error. -/
def completion (source : String) (cursor : Nat) (explicit : Bool) (config? : Option String) :
    Except String (Option CompletionView) :=
  match complete source cursor explicit config? with
  | .ok found =>
    .ok (found.map fun c => ⟨contextName c.context, c.anchor, c.candidates.map candidateView⟩)
  | .error e => .error e.message

/-- The highlights of a source, in code units. -/
def highlights (source : String) : List Highlight :=
  let chars := source.toList
  (Document.read source).tree.highlights.map fun h => { h with span := range chars h.span }

/-- A message about a part of the source, as an editor shows it. -/
structure DiagnosticView where
  /-- The words of the message. -/
  message : String
  /-- The part of the source it is about. -/
  span : SpanView
deriving DecidableEq, Repr

/-- What is wrong with a source, in code units. -/
def diagnostics (source : String) : List DiagnosticView :=
  let chars := source.toList
  let starts := Text.lineStarts chars
  (Document.read source).diagnostics.map fun d => ⟨d.message, spanView chars starts d.span⟩

/-! ## Vocabulary -/

/-- The words of the language by group. -/
structure LanguageData where
  /-- What begins a comment that ends with its line. -/
  lineComment : String
  /-- The names of operations. -/
  opcodes : List String
  /-- The heads of expressions that are no plain operation. -/
  specialForms : List String
  /-- The short names of operators. -/
  aliases : List String
  /-- The types that take no argument. -/
  nullaryTypes : List String
  /-- The names that make a type of their arguments. -/
  typeConstructors : List String
deriving DecidableEq, Repr

/-- The words of the language. -/
def languageData : LanguageData :=
  ⟨String.singleton Lexicon.commentMark, Lexicon.opcodes, Lexicon.specialForms, Lexicon.aliases,
    Lexicon.nullaryTypes, Lexicon.typeConstructors⟩

end GolfAssist.Editor
