import GolfAssist.Completion.Context
import GolfAssist.Document

/-!
# Candidates of completion

* `Completion.Candidate` — a text that is offered at the cursor.
* `Completion.offered` — all that is offered in a context.
* `Completion` and `Completion.complete` — the answer to a request.

The candidates of a context are given in full and in a fixed order; the editor narrows them down to
what fits the word that is being typed.
-/

namespace GolfAssist

namespace Completion

/-- The groups of candidates. -/
inductive Candidate.Kind where
  | type
  | keyword
  | variable
deriving DecidableEq, Repr

/-- How much a candidate is preferred to others of its group. -/
inductive Boost where
  | low
  | high
deriving DecidableEq, Repr

/-- The number by which editors know the boost. -/
def Boost.value : Boost → Nat
  | .low => 0
  | .high => 1

/-- A text that is offered at the cursor. -/
structure Candidate where
  /-- What is shown, and inserted when it is accepted. -/
  label : String
  /-- The group it is shown in. -/
  kind : Candidate.Kind
  /-- Its preference, if it has one. -/
  boost : Option Boost
deriving DecidableEq, Repr

/-- The names of types, simple ones first and then the constructors with their parenthesis. -/
def typeCandidates : List Candidate :=
  Lexicon.nullaryTypes.map (⟨·, .type, some .high⟩)
    ++ Lexicon.typeConstructors.map fun name => ⟨"(" ++ name, .type, some .low⟩

/-- The heads of expressions. -/
def keywordCandidates : List Candidate :=
  (Lexicon.opcodes ++ Lexicon.specialForms).map (⟨·, .keyword, none⟩)

/-- The variables of the source as often as they occur, without the one that starts at the
anchor. -/
def variableCandidates (source : String) (tree : Node) (anchor : Nat) : List Candidate :=
  (tree.textsOf source .variable (some anchor)).map (⟨·, .variable, none⟩)

/-- All that is offered in a context. -/
def offered (source : String) (tree : Node) (c : Classification) : List Candidate :=
  match c.context with
  | .variableReference => variableCandidates source tree c.anchor
  | .typePosition => typeCandidates
  | .general => keywordCandidates

end Completion

/-- The answer to a request for completion. -/
structure Completion where
  /-- What can be typed at the cursor. -/
  context : Completion.Context
  /-- The offset from which an accepted candidate replaces text up to the cursor. -/
  anchor : Nat
  /-- What is offered. -/
  candidates : List Completion.Candidate
deriving DecidableEq, Repr

namespace Completion

/-- What is offered at a cursor of a source with the given tree. -/
def completeIn (source : String) (tree : Node) (cursor : Nat) (explicit : Bool) (config : Config) :
    Except RequestError (Option Completion) :=
  (classify source tree cursor explicit config).map fun found =>
    found.map fun c => ⟨c.context, c.anchor, offered source tree c⟩

/-- What is offered at a cursor of a source. -/
def complete (source : String) (cursor : Nat) (explicit : Bool) (config : Config) :
    Except RequestError (Option Completion) :=
  completeIn source (Document.read source).tree cursor explicit config

end Completion

end GolfAssist
