/-!
# Byte offsets

Every offset and span of the library counts the bytes of the UTF-8 form of the text.

* `Span` — the part of a text from one offset up to another, the second one not included.
* `Text.byteLength` — the length of a text in bytes.
* `Text.splitAt?` — the text cut in two at a byte offset, when the offset falls between two
  characters.
* `Text.isBoundary` — whether it does.
* `Text.slice?` — the part of the text between two offsets.

All other questions about offsets are asked through `splitAt?`, whose answer is characterised by
`splitAt?_eq_some_iff`: the two parts put together are the text, and the first one has the asked
length. `isBoundary_iff` and `slice?_eq_some_iff` say the same of the other two. Nothing in the type
`Span` keeps its ends in order: a span is also what a caller hands in about a text it has not looked
at.
-/

namespace GolfAssist

/-- The part of a text from `start` up to `stop`. -/
structure Span where
  /-- The offset of the first byte of the part. -/
  start : Nat
  /-- The offset of the first byte after the part. -/
  stop : Nat
deriving DecidableEq, Repr

namespace Text

/-- The number of bytes of the text. -/
def byteLength : List Char → Nat
  | [] => 0
  | c :: cs => c.utf8Size + byteLength cs

/-- The text before and after a byte offset; nothing if the offset lies inside a character or
past the end. -/
def splitAt? (offset : Nat) : List Char → Option (List Char × List Char)
  | [] => if offset = 0 then some ([], []) else none
  | c :: cs =>
    if offset = 0 then some ([], c :: cs)
    else if c.utf8Size ≤ offset then
      (splitAt? (offset - c.utf8Size) cs).map fun (before, after) => (c :: before, after)
    else none

/-- The byte offset falls between two characters of the text, or at one of its ends. -/
def isBoundary (offset : Nat) (cs : List Char) : Bool := (splitAt? offset cs).isSome

/-- The text between two byte offsets; nothing if they are out of order or one of them is no
boundary. -/
def slice? (start stop : Nat) (cs : List Char) : Option (List Char) :=
  if start ≤ stop then do
    let (_, after) ← splitAt? start cs
    let (inside, _) ← splitAt? (stop - start) after
    some inside
  else none

@[simp] theorem byteLength_nil : byteLength [] = 0 := rfl

@[simp] theorem byteLength_cons (c : Char) (cs : List Char) :
    byteLength (c :: cs) = c.utf8Size + byteLength cs := rfl

@[simp] theorem byteLength_append (a b : List Char) :
    byteLength (a ++ b) = byteLength a + byteLength b := by
  induction a with
  | nil => simp
  | cons c a ih => simp [ih, Nat.add_assoc]

/-- A text with a character has a byte. -/
theorem byteLength_cons_pos (c : Char) (cs : List Char) : 0 < byteLength (c :: cs) :=
  Nat.lt_of_lt_of_le c.utf8Size_pos (Nat.le_add_right _ _)

/-- Of two first parts of a text, the shorter one is a first part of the longer one. -/
theorem exists_eq_append_of_byteLength_le {a b x y : List Char} (h : a ++ x = b ++ y)
    (hle : byteLength b ≤ byteLength a) : ∃ e, a = b ++ e ∧ y = e ++ x := by
  rcases List.append_eq_append_iff.mp h with ⟨e, rfl, rfl⟩ | ⟨e, rfl, rfl⟩
  · cases e with
    | nil => exact ⟨[], by simp, rfl⟩
    | cons c e =>
        have hpos := byteLength_cons_pos c e
        rw [byteLength_append] at hle
        omega
  · exact ⟨e, rfl, rfl⟩

/-- Cutting at the length of a first part gives back the two parts. -/
@[simp] theorem splitAt?_append (a b : List Char) :
    splitAt? (byteLength a) (a ++ b) = some (a, b) := by
  induction a with
  | nil => cases b <;> simp [splitAt?]
  | cons c a ih =>
    have hc : 0 < c.utf8Size := c.utf8Size_pos
    simp only [List.cons_append, splitAt?, byteLength_cons]
    rw [if_neg (by omega), if_pos (by omega), Nat.add_sub_cancel_left, ih]
    rfl

/-- A cut at an offset is a way to write the text as two parts, the first of that length. -/
theorem splitAt?_eq_some_iff {offset : Nat} {cs a b : List Char} :
    splitAt? offset cs = some (a, b) ↔ cs = a ++ b ∧ byteLength a = offset := by
  constructor
  · intro h
    induction cs generalizing offset a b with
    | nil =>
      simp only [splitAt?] at h
      split at h
      · simp only [Option.some.injEq, Prod.mk.injEq] at h
        obtain ⟨rfl, rfl⟩ := h
        simp_all
      · simp at h
    | cons c cs ih =>
      simp only [splitAt?] at h
      split at h
      · simp only [Option.some.injEq, Prod.mk.injEq] at h
        obtain ⟨rfl, rfl⟩ := h
        simp_all
      · split at h
        · simp only [Option.map_eq_some_iff, Prod.exists, Prod.mk.injEq] at h
          obtain ⟨a', b', hab, rfl, rfl⟩ := h
          obtain ⟨rfl, hl⟩ := ih hab
          refine ⟨rfl, ?_⟩
          rw [byteLength_cons]
          omega
        · simp at h
  · rintro ⟨rfl, rfl⟩
    exact splitAt?_append a b

/-- A boundary is the length of a first part of the text. -/
theorem isBoundary_iff {offset : Nat} {cs : List Char} :
    isBoundary offset cs = true ↔ ∃ a b, cs = a ++ b ∧ byteLength a = offset := by
  simp only [isBoundary, Option.isSome_iff_exists, Prod.exists, splitAt?_eq_some_iff]

/-- A slice is a middle part of the text, and its ends are where the offsets say. -/
theorem slice?_eq_some_iff {start stop : Nat} {cs part : List Char} :
    slice? start stop cs = some part ↔
      ∃ a b, cs = a ++ part ++ b ∧ byteLength a = start ∧ start + byteLength part = stop := by
  unfold slice?
  constructor
  · intro h
    split at h
    · simp only [Option.bind_eq_bind, Option.bind_eq_some_iff, Prod.exists,
        splitAt?_eq_some_iff, Option.some.injEq] at h
      obtain ⟨a, after, ⟨rfl, ha⟩, inside, b, ⟨rfl, hb⟩, rfl⟩ := h
      exact ⟨a, b, by rw [List.append_assoc], ha, by omega⟩
    · exact absurd h (by simp)
  · rintro ⟨a, b, rfl, rfl, rfl⟩
    rw [if_pos (by omega), List.append_assoc, splitAt?_append]
    simp

/-- A slice from the start is a first part of the text. -/
theorem slice?_zero_eq_some_iff {offset : Nat} {cs front : List Char} :
    slice? 0 offset cs = some front ↔
      ∃ rest, cs = front ++ rest ∧ byteLength front = offset := by
  rw [slice?_eq_some_iff]
  constructor
  · rintro ⟨a, b, rfl, ha, hfront⟩
    cases a with
    | nil => exact ⟨b, rfl, by omega⟩
    | cons c a => exact absurd ha (Nat.ne_of_gt (byteLength_cons_pos c a))
  · rintro ⟨rest, rfl, hfront⟩
    exact ⟨[], rest, rfl, rfl, by omega⟩

end Text

end GolfAssist
