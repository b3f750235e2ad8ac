import GolfAssist.Tree.Node

/-!
# Building trees

* `Builder` — a tree under construction: the node that is open, and the open nodes around it.
* `Builder.leaf`, `Builder.enter`, `Builder.leave`, `Builder.wrap?` — the four moves.
* `Builder.finish` — the tree, with everything still open closed at the end of the source.
* `Edit`, `Builder.apply`, `Builder.trace` — the moves as data, and the trees after each of a list
  of moves.

An open node keeps the children it has so far, the newest first. Closing it puts it among the
children of the node around it, so nothing that was built is ever changed. Wrapping is the one move
that takes a finished child back: it becomes the first child of a new open node.
-/

namespace GolfAssist

/-- An open node. -/
structure Frame where
  /-- The number the node will have. -/
  id : Nat
  /-- What it stands for. -/
  kind : Node.Kind
  /-- Where it starts. -/
  start : Nat
  /-- Its children so far, the newest first. -/
  children : List Node
deriving Repr

namespace Frame

/-- The node has one more child. -/
def push (f : Frame) (n : Node) : Frame := { f with children := n :: f.children }

/-- The furthest end of the children, or 0 without children. -/
def reach (f : Frame) : Nat := f.children.foldl (fun stop n => max stop n.span.stop) 0

/-- The finished node with the given end, moved back where that would leave out a child or the
start. -/
def close (f : Frame) (stop : Nat) : Node :=
  ⟨f.id, f.kind, ⟨f.start, max (max stop f.reach) f.start⟩, f.children.reverse⟩

end Frame

/-- A tree under construction. -/
structure Builder where
  /-- The length of the source, where the root ends. -/
  length : Nat
  /-- The number of the next node. -/
  next : Nat
  /-- The innermost open node. -/
  top : Frame
  /-- The open nodes around it, from the inside out; the last one is the root. -/
  outer : List Frame
deriving Repr

namespace Builder

/-- Only the root is open. -/
def start (length : Nat) : Builder := ⟨length, 1, ⟨0, .program, 0, []⟩, []⟩

/-- A finished node without children is added to the open one. -/
def leaf (b : Builder) (kind : Node.Kind) (span : Span) : Builder :=
  { b with next := b.next + 1, top := b.top.push ⟨b.next, kind, span, []⟩ }

/-- A new node is opened inside the open one. -/
def enter (b : Builder) (kind : Node.Kind) (start : Nat) : Builder :=
  { b with next := b.next + 1, top := ⟨b.next, kind, start, []⟩, outer := b.top :: b.outer }

/-- The open node is closed at an end, or further on where its children reach further. The root
stays open. -/
def leave (b : Builder) (stop : Nat) : Builder :=
  match b.outer with
  | [] => b
  | frame :: outer => { b with top := frame.push (b.top.close stop), outer }

/-- A new node is opened around the last child of the open one, if it has a child. -/
def wrap? (b : Builder) (kind : Node.Kind) : Option Builder :=
  match b.top.children with
  | [] => none
  | last :: others =>
    some { b with
      next := b.next + 1
      top := ⟨b.next, kind, last.span.start, [last]⟩
      outer := { b.top with children := others } :: b.outer }

/-- The tree with `top` as its innermost open node and `outer` around it, closed at the end of
the source. -/
def closeAll (length : Nat) (top : Frame) : List Frame → Node
  | [] => ⟨top.id, top.kind, ⟨top.start, length⟩, top.children.reverse⟩
  | frame :: outer => closeAll length (frame.push (top.close length)) outer

/-- The tree, with everything still open closed at the end of the source. -/
def finish (b : Builder) : Node := closeAll b.length b.top b.outer

end Builder

/-! ## Moves as data -/

/-- A move of a builder. -/
inductive Edit where
  | leaf (kind : Node.Kind) (span : Span)
  | enter (kind : Node.Kind) (start : Nat)
  | leave (stop : Nat)
  | wrap (kind : Node.Kind)
deriving DecidableEq, Repr

namespace Builder

/-- The builder after a move, and the number of the node that the move has made. -/
def apply (b : Builder) : Edit → Builder × Option Nat
  | .leaf kind span => (b.leaf kind span, some b.next)
  | .enter kind start => (b.enter kind start, some b.next)
  | .leave stop => (b.leave stop, none)
  | .wrap kind =>
    match b.wrap? kind with
    | some wrapped => (wrapped, some b.next)
    | none => (b, none)

/-- The builder after a list of moves. -/
def run (b : Builder) (edits : List Edit) : Builder := edits.foldl (fun b e => (b.apply e).1) b

/-- For each of a list of moves, the number of the node it has made and the tree that is finished
right after it. -/
def trace (b : Builder) : List Edit → List (Option Nat × Node)
  | [] => []
  | e :: edits =>
    let (after, made) := b.apply e
    (made, after.finish) :: trace after edits

end Builder

end GolfAssist
