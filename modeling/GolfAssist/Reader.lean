import GolfAssist.Diagnostic
import GolfAssist.Tree.Builder

/-!
# The state of reading a program

* `Reader` — how far the reading of a token list has come: the tree so far, what has been found
  wrong, the comments not yet placed, and what the next token has to be.
* The moves of a reader, each of which does one thing to the tree or to the findings.

A comment is placed only when the token after it is, so it comes to stand in the node that is open
at that time. A reader never goes back: what a token is taken for depends on the nodes that are
open, on the token, and on the next token that is no comment.
-/

namespace GolfAssist

/-- What the next token has to be. -/
inductive Expectation where
  /-- An item of the innermost open node, or what ends it. -/
  | item
  /-- The colon between an expression and its type. -/
  | colon
  /-- The first token of a type. -/
  | type
  /-- The dots of a range. -/
  | dots
  /-- The upper bound of a range. -/
  | bound
deriving DecidableEq, Repr

/-- The state of reading a program. -/
structure Reader where
  /-- The tree so far. -/
  builder : Builder
  /-- The comments not yet placed, the newest first. -/
  comments : List Token
  /-- What has been found wrong, the newest first. -/
  findings : List Finding
  /-- What the next token has to be. -/
  expects : Expectation
deriving Repr

namespace Reader

/-- Nothing of a source of the given length has been read. -/
def start (length : Nat) : Reader := ⟨.start length, [], [], .item⟩

/-- The kind of the innermost open node. -/
def region (r : Reader) : Node.Kind := r.builder.top.kind

/-- A comment waits for the token after it. -/
def hold (r : Reader) (comment : Token) : Reader := { r with comments := comment :: r.comments }

/-- The waiting comments are placed in the open node. -/
def attach (r : Reader) : Reader :=
  { r with
    builder := r.comments.foldr (fun t b => b.leaf .lineComment t.span) r.builder
    comments := [] }

/-- The token is placed in the open node as a leaf. -/
def shift (r : Reader) (kind : Node.Kind) (t : Token) : Reader :=
  let r := r.attach
  { r with builder := r.builder.leaf kind t.span }

/-- A node is opened where the token starts. Waiting comments stay outside of it. -/
def enter (r : Reader) (kind : Node.Kind) (t : Token) : Reader :=
  let r := r.attach
  { r with builder := r.builder.enter kind t.start }

/-- The open node is closed at an offset, or further on where its children reach further. -/
def leaveAt (r : Reader) (stop : Nat) : Reader := { r with builder := r.builder.leave stop }

/-- The open node is closed where its children end. -/
def leave (r : Reader) : Reader := r.leaveAt 0

/-- Something is wrong at the token. -/
def report (r : Reader) (t : Token) (problem : Problem) : Reader :=
  { r with findings := ⟨problem, t.span⟩ :: r.findings }

/-- Something is wrong with the token: it is reported and placed as an error. -/
def reject (r : Reader) (t : Token) (problem : Problem) : Reader :=
  (r.report t problem).shift .error t

end Reader

/-- The problem that something is missing in front of the token. -/
def Problem.missingBefore (wanted : Wanted) (t : Token) : Problem :=
  .missing wanted (if t.kind = .eof then none else some t.text)

end GolfAssist
