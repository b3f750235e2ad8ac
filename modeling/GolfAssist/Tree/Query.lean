import GolfAssist.Tree.Node

/-!
# Questions about a tree

* `Bias`, `Node.resolve` — the innermost node at an offset, where the bias decides about an offset
  that lies on the edge of a node.
* `Node.textsOf` — the texts of all nodes of a kind.

`resolve` answers with a place: it goes down from the root into the first child that the bias lets
it enter, and the nodes it came through are the ones above the answer.
-/

namespace GolfAssist

/-- Which node an offset on the edge between two nodes belongs to. -/
inductive Bias where
  /-- The one that ends there. -/
  | before
  /-- Neither of them. -/
  | strict
  /-- The one that starts there. -/
  | after
deriving DecidableEq, Repr

/-- The offset counts as lying in the span. -/
def Bias.enters (bias : Bias) (span : Span) (offset : Nat) : Bool :=
  match bias with
  | .before => span.start < offset && offset ≤ span.stop
  | .strict => span.start < offset && offset < span.stop
  | .after => span.start ≤ offset && offset < span.stop

namespace Node

mutual

/-- The innermost place at the offset in a tree that hangs below the nodes `above`. -/
def resolveBelow (offset : Nat) (bias : Bias) (above : List Node) : Node → Path
  | ⟨id, kind, span, children⟩ =>
    resolveAmong offset bias ⟨⟨id, kind, span, children⟩, above⟩ children

/-- The innermost place at the offset, given that it lies in the node of `here`, of which these
children are still to be looked at. Children that start after the offset end the search. -/
def resolveAmong (offset : Nat) (bias : Bias) (here : Path) : List Node → Path
  | [] => here
  | n :: ns =>
    if offset < n.span.start then here
    else if bias.enters n.span offset then resolveBelow offset bias here.ancestors n
    else resolveAmong offset bias here ns

end

/-- The innermost node of the tree at the offset, with the nodes above it; the root if no other
node has the offset in it. -/
def resolve (root : Node) (offset : Nat) (bias : Bias) : Path := resolveBelow offset bias [] root

/-- The texts of the nodes of a kind, in document order, without those that start at `except?`. -/
def textsOf (root : Node) (source : String) (kind : Kind) (except? : Option Nat) : List String :=
  let chars := source.toList
  (root.preorder.filter fun n => n.kind = kind && except? ≠ some n.span.start).map fun n =>
    String.ofList (n.textIn chars)

end Node

end GolfAssist
