import GolfAssist.Text.Bytes
import GolfAssist.Tree.Kind

/-!
# Syntax trees

* `Node` — a tree: a node with its number, its kind, its span and the trees below it.
* `Node.Path` — a node together with the nodes above it.
* `Node.paths` — every node of a tree with the nodes above it, in document order.

A tree is given by its root. All walks over it are read off the one list `paths`: the nodes in
document order are its entries, the ancestors of a node and its parent are what stands above it,
and its depth is their number. Numbers are given in the order in which nodes are made, so
they are no positions in that list.
-/

namespace GolfAssist

/-- A node of a syntax tree with all that is below it. -/
structure Node where
  /-- The number of the node, unique in its tree. -/
  id : Nat
  /-- What the node stands for. -/
  kind : Node.Kind
  /-- The part of the source it covers. -/
  span : Span
  /-- The trees directly below it, in document order. -/
  children : List Node
deriving Repr

namespace Node

/-- A tree of nothing but its root, for a source of the given length. -/
def empty (length : Nat) : Node := ⟨0, .program, ⟨0, length⟩, []⟩

/-- The text of a node among the characters of a source; empty where the span does not fit
them. -/
def textIn (chars : List Char) (n : Node) : List Char :=
  (Text.slice? n.span.start n.span.stop chars).getD []

/-- The text of a node in a source. -/
def text (source : String) (n : Node) : String := String.ofList (n.textIn source.toList)

/-- Nothing is below the node. -/
def isLeaf (n : Node) : Bool := n.children.isEmpty

/-! ## Places in a tree -/

/-- A node and the nodes above it. -/
structure Path where
  /-- The node itself. -/
  node : Node
  /-- Its parent, the parent of that, and so on up to the root. -/
  above : List Node
deriving Repr

namespace Path

/-- The node, its parent, and so on up to the root. -/
def ancestors (p : Path) : List Node := p.node :: p.above

/-- The node directly above, which the root does not have. -/
def parent? (p : Path) : Option Node := p.above.head?

/-- How many nodes are above. -/
def depth (p : Path) : Nat := p.above.length

/-- The node or one above it has the kind. -/
def within (kind : Kind) (p : Path) : Bool := p.ancestors.any (·.kind = kind)

end Path

mutual

/-- The places of a tree that hangs below the nodes `above`, in document order. -/
def pathsBelow (above : List Node) : Node → List Path
  | ⟨id, kind, span, children⟩ =>
    ⟨⟨id, kind, span, children⟩, above⟩
      :: forestPaths (⟨id, kind, span, children⟩ :: above) children

/-- The places of neighbouring trees that hang below the nodes `above`. -/
def forestPaths (above : List Node) : List Node → List Path
  | [] => []
  | n :: ns => pathsBelow above n ++ forestPaths above ns

end

/-- Every node of the tree with the nodes above it, in document order. -/
def paths (root : Node) : List Path := pathsBelow [] root

/-- The nodes of the tree, each before those below it and in document order. -/
def preorder (root : Node) : List Node := root.paths.map (·.node)

/-- The number of nodes of the tree. -/
def size (root : Node) : Nat := root.paths.length

/-- The tree has no node but its root. -/
def isBare (root : Node) : Bool := root.size ≤ 1

/-- The place of the node with a number. -/
def find? (root : Node) (id : Nat) : Option Path := root.paths.find? (·.node.id = id)

end Node

end GolfAssist
