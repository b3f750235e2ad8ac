/-!
# Lines and columns

* `Text.lineStarts` — the byte offset at which each line of a text starts.
* `Text.Position` — a line and a column, both counted from one; the column counts bytes.
* `Text.Position.ofOffset` — the position of a byte offset in a text with the given line starts.

Only a line feed ends a line. A position is given for every offset: one past the end of the text
counts as standing on the last line.
-/

namespace GolfAssist.Text

/-- The byte offsets that directly follow a line feed, for a text that begins at `offset`. -/
def startsAfterFeeds (offset : Nat) : List Char → List Nat
  | [] => []
  | c :: cs =>
    let next := offset + c.utf8Size
    if c = '\n' then next :: startsAfterFeeds next cs else startsAfterFeeds next cs

/-- The byte offsets at which the lines of the text start, in increasing order. -/
def lineStarts (cs : List Char) : List Nat := 0 :: startsAfterFeeds 0 cs

/-- A place in a text as people name it. -/
structure Position where
  /-- The number of the line, the first one being 1. -/
  line : Nat
  /-- The number of the byte in its line, the first one being 1. -/
  column : Nat
deriving DecidableEq, Repr

/-- The position of a byte offset: the line is the last one that starts at or before it. -/
def Position.ofOffset (starts : List Nat) (offset : Nat) : Position :=
  let reached := starts.filter (· ≤ offset)
  ⟨reached.length, offset - reached.getLastD 0 + 1⟩

/-- The position of a byte offset of the text. -/
def position (cs : List Char) (offset : Nat) : Position := .ofOffset (lineStarts cs) offset

end GolfAssist.Text
