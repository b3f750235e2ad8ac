import GolfAssist.Proofs.Text.Encoding
import GolfAssist.Text.Lines
import Mathlib.Data.List.Sort
import Mathlib.Data.Prod.Lex

/-!
# Lines and columns by counting

* `Text.feedsBefore` — the line feeds in front of an offset, found by looking at every byte.
* `Text.lineStart` — the offset behind the last of them, or else the start of the text.
* `Text.position_counts` — the position of an offset counts the line feeds in front of it and the
  bytes since the last of them, so it tells all offsets apart and keeps their order.

The table of line starts is made character by character and then asked for the entries that an
offset has reached. Both lists, these entries and the line feeds found among the bytes, increase, so
that they are the same as soon as they have the same members.
-/

namespace GolfAssist.Text

/-- The offsets of the line feeds in front of an offset, in increasing order. -/
def feedsBefore (source : String) (offset : Nat) : List Nat :=
  (List.range offset).filter fun i => (bytes source)[i]? = some 10

/-- Where the line of an offset starts: one byte behind the last line feed in front of the offset,
or at zero if there is none. -/
def lineStart (source : String) (offset : Nat) : Nat :=
  ((feedsBefore source offset).map (· + 1)).getLastD 0

/-! ## The table of line starts -/

/-- Each line feed is followed by the start of a line. -/
theorem mem_startsAfterFeeds_iff {offset start : Nat} {cs : List Char} :
    start ∈ startsAfterFeeds offset cs ↔
      ∃ a b, cs = a ++ '\n' :: b ∧ offset + byteLength a + 1 = start := by
  induction cs generalizing offset with
  | nil => simp [startsAfterFeeds]
  | cons c cs ih =>
      have hcons : (∃ a b, c :: cs = a ++ '\n' :: b ∧ offset + byteLength a + 1 = start) ↔
          c = '\n' ∧ offset + 1 = start ∨
            ∃ a b, cs = a ++ '\n' :: b ∧ offset + c.utf8Size + byteLength a + 1 = start := by
        constructor
        · rintro ⟨_ | ⟨d, a⟩, b, hcs, h⟩
          · exact .inl ⟨(List.cons.inj hcs).1, h⟩
          · obtain ⟨rfl, rfl⟩ := List.cons.inj hcs
            exact .inr ⟨a, b, rfl, by rw [byteLength_cons] at h; omega⟩
        · rintro (⟨rfl, h⟩ | ⟨a, b, rfl, h⟩)
          · exact ⟨[], cs, rfl, h⟩
          · exact ⟨c :: a, b, rfl, by rw [byteLength_cons]; omega⟩
      rw [hcons, ← ih, startsAfterFeeds]
      split
      next hc =>
        subst hc
        rw [List.mem_cons, eq_comm, and_iff_right rfl]
        rfl
      next hc => simp [hc]

/-- The starts of lines increase. -/
theorem startsAfterFeeds_pairwise (offset : Nat) (cs : List Char) :
    (startsAfterFeeds offset cs).Pairwise (· < ·) := by
  induction cs generalizing offset with
  | nil => exact .nil
  | cons c cs ih =>
      rw [startsAfterFeeds]
      split
      · refine List.pairwise_cons.mpr ⟨fun start h => ?_, ih _⟩
        obtain ⟨a, b, -, rfl⟩ := mem_startsAfterFeeds_iff.mp h
        omega
      · exact ih _

/-- The starts of lines increase from zero on. -/
theorem lineStarts_pairwise (cs : List Char) : (lineStarts cs).Pairwise (· < ·) := by
  refine List.pairwise_cons.mpr ⟨fun start h => ?_, startsAfterFeeds_pairwise 0 cs⟩
  obtain ⟨a, b, -, rfl⟩ := mem_startsAfterFeeds_iff.mp h
  omega

/-- The starts of lines that an offset has reached are zero and the offsets behind the line feeds in
front of it. -/
theorem filter_lineStarts (source : String) (offset : Nat) :
    (lineStarts source.toList).filter (· ≤ offset) =
      0 :: (feedsBefore source offset).map (· + 1) := by
  rw [lineStarts, List.filter_cons_of_pos (by simp)]
  congr 1
  apply List.Pairwise.eq_of_mem_iff (r := (· < ·))
  · exact (startsAfterFeeds_pairwise 0 _).filter _
  · rw [List.pairwise_map]
    exact (List.pairwise_lt_range.filter _).imp fun h => Nat.add_lt_add_right h 1
  · intro start
    simp only [List.mem_filter, mem_startsAfterFeeds_iff, feedsBefore, List.mem_map, List.mem_range,
      decide_eq_true_eq, getElem?_bytes_eq_feed_iff]
    constructor
    · rintro ⟨⟨a, b, hcs, rfl⟩, hle⟩
      exact ⟨byteLength a, ⟨by omega, a, b, hcs, rfl⟩, by omega⟩
    · rintro ⟨_, ⟨hlt, a, b, hcs, rfl⟩, rfl⟩
      exact ⟨⟨a, b, hcs, by omega⟩, by omega⟩

/-- What an increasing list has up to a number are its first entries. -/
theorem filter_eq_take {xs : List Nat} (h : xs.Pairwise (· < ·)) (x : Nat) :
    xs.filter (· ≤ x) = xs.take (xs.filter (· ≤ x)).length := by
  induction xs with
  | nil => rfl
  | cons y xs ih =>
      obtain ⟨hy, hxs⟩ := List.pairwise_cons.mp h
      by_cases hle : y ≤ x
      · rw [List.filter_cons_of_pos (by simpa using hle), List.length_cons, List.take_succ_cons,
          ← ih hxs]
      · have hnone : (y :: xs).filter (· ≤ x) = [] := by
          rw [List.filter_eq_nil_iff]
          intro z hz
          rcases List.mem_cons.mp hz with rfl | hz
          · simpa using hle
          · have hlt := hy z hz
            simp only [decide_eq_true_eq]
            omega
        rw [hnone]
        rfl

/-! ## Positions -/

variable (source : String)

/-- The line counts line feeds, and the column counts bytes. -/
theorem position_eq (offset : Nat) :
    position source.toList offset =
      ⟨(feedsBefore source offset).length + 1, offset - lineStart source offset + 1⟩ := by
  rw [position, Position.ofOffset, filter_lineStarts, List.length_cons, List.length_map,
    List.getLastD_cons]
  rfl

/-- The last start of a line that an offset has reached is the one of its own line. -/
theorem getLast?_filter_lineStarts (offset : Nat) :
    ((lineStarts source.toList).filter (· ≤ offset)).getLast? = some (lineStart source offset) := by
  rw [filter_lineStarts, List.getLast?_cons, lineStart, List.getLastD_eq_getLast?]

/-- No line starts behind an offset in it. -/
theorem lineStart_le (offset : Nat) : lineStart source offset ≤ offset := by
  have hmem := List.mem_of_getLast? (getLast?_filter_lineStarts source offset)
  exact of_decide_eq_true (List.mem_filter.mp hmem).2

/-- The entry of the table for the line of an offset is where that line starts. -/
theorem getElem?_lineStarts (offset : Nat) :
    (lineStarts source.toList)[(feedsBefore source offset).length]? =
      some (lineStart source offset) := by
  have hlength : ((lineStarts source.toList).filter (· ≤ offset)).length =
      (feedsBefore source offset).length + 1 := by
    rw [filter_lineStarts, List.length_cons, List.length_map]
  have hlast := getLast?_filter_lineStarts source offset
  rw [List.getLast?_eq_getElem?, hlength, Nat.add_sub_cancel,
    filter_eq_take (lineStarts_pairwise source.toList) offset, hlength,
    List.getElem?_take_of_lt (Nat.lt_succ_self _)] at hlast
  exact hlast

/-- From one offset to a later one, line feeds are only added. -/
theorem feedsBefore_add (offset more : Nat) :
    ∃ feeds, feedsBefore source (offset + more) = feedsBefore source offset ++ feeds := by
  unfold feedsBefore
  rw [List.range_add, List.filter_append]
  exact ⟨_, rfl⟩

/-- A later offset is on a later line, or in a later column of the same line. -/
theorem position_lt {offset offset' : Nat} (h : offset < offset') :
    toLex ((position source.toList offset).line, (position source.toList offset).column) <
      toLex ((position source.toList offset').line, (position source.toList offset').column) := by
  obtain ⟨feeds, hfeeds⟩ := feedsBefore_add source offset (offset' - offset)
  rw [Nat.add_sub_cancel' h.le] at hfeeds
  rw [position_eq, position_eq, Prod.Lex.toLex_lt_toLex]
  dsimp only
  cases feeds with
  | nil =>
      rw [List.append_nil] at hfeeds
      have hstart : lineStart source offset' = lineStart source offset := by
        rw [lineStart, hfeeds, lineStart]
      have hle := lineStart_le source offset
      rw [hfeeds, hstart]
      exact .inr ⟨rfl, by omega⟩
  | cons feed feeds =>
      rw [hfeeds, List.length_append, List.length_cons]
      exact .inl (by omega)

/-- **Lines and columns count.** The line of an offset is one more than the number of line feeds in
front of it, and its column is one more than the number of bytes since the last of these, or since
the start of the text. This holds for all offsets, also inside of a character and behind the text.
The table of line starts increases; an offset has reached its first entries, as many as the number
of the line says, and the last of them is the start of that line. So different offsets have
different positions, and a greater offset has a greater one. -/
theorem position_counts :
    (∀ offset,
      position source.toList offset =
          ⟨1 + (feedsBefore source offset).length, 1 + offset - lineStart source offset⟩ ∧
        lineStart source offset ≤ offset ∧
        (lineStarts source.toList).filter (· ≤ offset) =
          (lineStarts source.toList).take (position source.toList offset).line ∧
        (lineStarts source.toList)[(position source.toList offset).line - 1]? =
          some (lineStart source offset)) ∧
      (lineStarts source.toList).Pairwise (· < ·) ∧
      Function.Injective (position source.toList) ∧
      StrictMono fun offset =>
        toLex ((position source.toList offset).line, (position source.toList offset).column) := by
  have hmono : StrictMono fun offset =>
      toLex ((position source.toList offset).line, (position source.toList offset).column) :=
    fun _ _ => position_lt source
  refine ⟨fun offset => ?_, lineStarts_pairwise _, fun offset offset' h => ?_, hmono⟩
  · have hle := lineStart_le source offset
    refine ⟨?_, hle, ?_, ?_⟩
    · rw [position_eq, Position.mk.injEq]
      omega
    · exact filter_eq_take (lineStarts_pairwise _) offset
    · rw [position_eq, Nat.add_sub_cancel]
      exact getElem?_lineStarts source offset
  · exact hmono.injective (by rw [h])

-- a line feed belongs to the line that it ends, and behind the text the last line goes on
example : [0, 2, 3, 4, 9].map (position "é\n\nx".toList) =
    [⟨1, 1⟩, ⟨1, 3⟩, ⟨2, 1⟩, ⟨3, 1⟩, ⟨3, 6⟩] := by decide

end GolfAssist.Text
