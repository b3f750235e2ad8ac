/-!
# Classes of characters

* `Text.Ranges` — a list of closed code point ranges, the form in which a character property is
  written down; `Text.Ranges.has` is membership of a character.
* `Text.isBlank` — the characters with the property `White_Space`, which separate tokens and are
  trimmed from the ends of a setting or a declaration.
* `Text.trimLeft`, `Text.trim` — a text without the blanks at its front, or at both ends.

A property table is data; what the rest of the library uses of it is membership alone.
-/

namespace GolfAssist.Text

/-- Closed ranges `(first, last)` of code points, in increasing order. -/
abbrev Ranges := List (Nat × Nat)

/-- The character lies in one of the ranges. -/
def Ranges.has (ranges : Ranges) (c : Char) : Bool :=
  ranges.any fun (first, last) => first ≤ c.toNat && c.toNat ≤ last

/-! ## Blanks

The class is wider than the blanks of ASCII: it has the line and paragraph separators and the
spaces of other scripts, but neither the zero width space nor the byte order mark. -/

/-- The code points with the property `White_Space`. -/
def blanks : Ranges :=
  [(0x0009, 0x000D), (0x0020, 0x0020), (0x0085, 0x0085), (0x00A0, 0x00A0), (0x1680, 0x1680),
    (0x2000, 0x200A), (0x2028, 0x2029), (0x202F, 0x202F), (0x205F, 0x205F), (0x3000, 0x3000)]

/-- The character is blank. -/
def isBlank (c : Char) : Bool := blanks.has c

/-- The text from its first character that is not blank. -/
def trimLeft (cs : List Char) : List Char := cs.dropWhile isBlank

/-- The text from its first to its last character that is not blank. -/
def trim (cs : List Char) : List Char := (trimLeft (trimLeft cs).reverse).reverse

end GolfAssist.Text
