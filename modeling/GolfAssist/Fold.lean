import GolfAssist.Tree.Node

/-!
# Folding and indentation

* `FoldRule`, `IndentRule` — how an editor folds and indents nodes of a kind.
* `Node.foldRange?` — the part of the source that folding a node hides.
* `Node.folds` — the nodes of a tree that can be folded.

Only alternatives in braces fold: all between the braces is hidden, or all behind the opening brace
where the closing one is missing.
-/

namespace GolfAssist

/-- How nodes of a kind fold. -/
inductive FoldRule where
  /-- What is between the first and the last child is hidden. -/
  | inside
deriving DecidableEq, Repr

/-- How nodes of a kind are indented. -/
inductive IndentRule where
  /-- The children stand one step further in than the line that opens the node, and the closing
  character stands back; `align` asks for the column of the opening one instead. -/
  | delimited (closing : Char) (align : Bool)
deriving DecidableEq, Repr

namespace Node

/-- How nodes of the kind fold, if they do. -/
def Kind.foldRule? : Kind → Option FoldRule
  | .variants => some .inside
  | _ => none

/-- How nodes of the kind are indented, if they are. -/
def Kind.indentRule? : Kind → Option IndentRule
  | .variants => some (.delimited '\x7d' false)
  | _ => none

/-- The part of the source that folding the node hides, if its kind folds and there is something
to hide. -/
def foldRange? (n : Node) : Option Span :=
  match n.kind.foldRule?, n.children with
  | some .inside, first :: second :: others =>
    let last := others.getLastD second
    let stop := if last.kind = .closeBrace then last.span.start else n.span.stop
    if first.span.stop < stop then some ⟨first.span.stop, stop⟩ else none
  | _, _ => none

/-- The nodes of the tree that can be folded, each with what is hidden, in document order. -/
def folds (root : Node) : List (Node × Span) :=
  root.preorder.filterMap fun n => n.foldRange?.map (n, ·)

end Node

end GolfAssist
