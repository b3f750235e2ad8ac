import GolfAssist.Tree.Node

/-!
# Highlighting

* `Highlight.Tag` — the categories by which an editor styles text.
* `Highlight` — a part of the source with its category.
* `Node.highlights` — the highlights of a tree, in document order.
-/

namespace GolfAssist

/-- The categories by which text is styled. -/
inductive Highlight.Tag where
  | variableName
  | string
  | keyword
  | constantKeyword
  | operator
  | typeName
  | integer
  | lineComment
  | paren
deriving DecidableEq, Repr

/-- The name of the category. -/
def Highlight.Tag.name : Highlight.Tag → String
  | .variableName => "variableName"
  | .string => "string"
  | .keyword => "keyword"
  | .constantKeyword => "constant(keyword)"
  | .operator => "operator"
  | .typeName => "typeName"
  | .integer => "integer"
  | .lineComment => "lineComment"
  | .paren => "paren"

/-- The category of the leaves of a kind, if they are styled. -/
def Node.Kind.tag? : Node.Kind → Option Highlight.Tag
  | .variable => some .variableName
  | .string => some .string
  | .builtin => some .keyword
  | .nullary => some .constantKeyword
  | .opalias => some .operator
  | .typeName => some .typeName
  | .integer => some .integer
  | .lineComment => some .lineComment
  | .openParen | .closeParen => some .paren
  | _ => none

/-- A part of the source with its category. -/
structure Highlight where
  /-- The part. -/
  span : Span
  /-- Its category. -/
  tag : Highlight.Tag
deriving DecidableEq, Repr

/-- The highlight of a node, if it is a leaf that is styled. -/
def Node.highlight? (n : Node) : Option Highlight :=
  if n.isLeaf then n.kind.tag?.map (⟨n.span, ·⟩) else none

/-- The highlights of the tree, in document order. -/
def Node.highlights (root : Node) : List Highlight := root.preorder.filterMap (·.highlight?)

end GolfAssist
