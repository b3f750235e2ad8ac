import GolfAssist.Text.Extending
import GolfAssist.Text.Unmarked
import GolfAssist.Tree.Node

/-!
# Listings of trees

* `Text.quoted` — a text between double quotes, on one line.
* `Node.dump` — a tree as indented lines, one for each node in document order.

A line has the kind and the span of its node, and the quoted text where nothing is below it. In a
quoted text, a character that would end it, break the line or not be seen is written as an escape:
the usual letters for tab, carriage return, line feed and nul, and the code point in braces for
every other one.
-/

namespace GolfAssist

/-! ## Quoted text -/

namespace Text

/-- The character is written by its code point: it leaves no mark, or only extends its
neighbour. Printable ASCII is decided without the tables. -/
def isHidden (c : Char) : Bool :=
  !(' ' ≤ c && c ≤ '~') && (unmarked.has c || extending.has c || fillers.has c)

/-- A character as it stands between quotes. -/
def quoteChar (c : Char) : List Char :=
  match c with
  | '\x00' => ['\\', '0']
  | '\t' => ['\\', 't']
  | '\r' => ['\\', 'r']
  | '\n' => ['\\', 'n']
  | '\\' => ['\\', '\\']
  | '"' => ['\\', '"']
  | c =>
    if isHidden c then ['\\', 'u', '\x7b'] ++ Nat.toDigits 16 c.toNat ++ ['\x7d'] else [c]

/-- The text between double quotes, with every character written so that it can be seen. -/
def quoted (cs : List Char) : List Char := '"' :: cs.flatMap quoteChar ++ ['"']

end Text

/-! ## Lines -/

namespace Node

/-- The line of one node, in a listing about the given characters. -/
def Path.line (chars : List Char) (p : Path) : String :=
  let n := p.node
  String.ofList (List.replicate (2 * p.depth) ' ') ++ n.kind.name ++ "@"
    ++ toString n.span.start ++ ".." ++ toString n.span.stop
    ++ (if n.isLeaf then " " ++ String.ofList (Text.quoted (n.textIn chars)) else "")
    ++ "\n"

/-- The tree as indented lines. -/
def dump (root : Node) (source : String) : String :=
  let chars := source.toList
  String.join (root.paths.map (·.line chars))

end Node

end GolfAssist
