import GolfAssist.Proofs.Editor.Ranges

/-!
# Offsets in bytes and in code units

* `Text.byteOfUnit?_eq_none_iff` — which offsets in code units have no offset in bytes: those behind
  the text, and those between the two units of one character.
* `Editor.offsets_convert` — the two conversions undo each other on the boundaries of characters,
  and keep the order.

One conversion goes through the text and counts units until it has enough; the other one cuts the
text at a byte and measures what is in front. They meet in the first parts of the text: a first part
has one length in units and one in bytes, and each length belongs to one first part only.
-/

namespace GolfAssist

open Text

namespace Text

variable {cs : List Char} {unit byte : Nat}

/-- A character has no more units than bytes. -/
theorem units_le_utf8Size (c : Char) : units c ≤ c.utf8Size := by
  unfold units Char.utf8Size
  simp only [Char.toNat, UInt32.le_iff_toNat_le]
  change (if c.val.toNat ≤ 65535 then 1 else 2) ≤ if c.val.toNat ≤ 127 then 1
    else if c.val.toNat ≤ 2047 then 2 else if c.val.toNat ≤ 65535 then 3 else 4
  repeat' split
  all_goals omega

/-- A text has no more units than bytes. -/
theorem unitLength_le_byteLength (cs : List Char) : unitLength cs ≤ byteLength cs := by
  induction cs with
  | nil => exact Nat.le_refl _
  | cons c cs ih => exact Nat.add_le_add (units_le_utf8Size c) ih

/-- An offset in units belongs to a boundary in bytes if the text in front of that has as many
units. -/
theorem byteOfUnit?_eq_some_iff_slice? :
    byteOfUnit? unit cs = some byte ↔
      isBoundary byte cs ∧ (slice? 0 byte cs).map unitLength = some unit := by
  simp only [byteOfUnit?_eq_some_iff, isBoundary_iff, Option.map_eq_some_iff,
    slice?_zero_eq_some_iff]
  constructor
  · rintro ⟨a, b, rfl, rfl, rfl⟩
    exact ⟨⟨a, b, rfl, rfl⟩, a, ⟨b, rfl, rfl⟩, rfl⟩
  · rintro ⟨-, a, ⟨b, rfl, rfl⟩, rfl⟩
    exact ⟨a, b, rfl, rfl, rfl⟩

/-- The bytes found for an offset in units lead back to it. -/
theorem unitOfByte_of_byteOfUnit? (h : byteOfUnit? unit cs = some byte) :
    unitOfByte byte cs = unit := by
  obtain ⟨a, b, rfl, rfl, rfl⟩ := byteOfUnit?_eq_some_iff.mp h
  exact unitOfByte_append a b

/-- The bytes found for an offset in units are a boundary. -/
theorem isBoundary_of_byteOfUnit? (h : byteOfUnit? unit cs = some byte) : isBoundary byte cs :=
  (byteOfUnit?_eq_some_iff_slice?.mp h).1

/-- **Offsets in units without a place.** An offset has none if it is behind the text, or if it
falls between the two units of one character. -/
theorem byteOfUnit?_eq_none_iff :
    byteOfUnit? unit cs = none ↔
      unitLength cs < unit ∨
        ∃ a c b, cs = a ++ c :: b ∧ units c = 2 ∧ unit = unitLength a + 1 := by
  induction cs generalizing unit with
  | nil => simp [byteOfUnit?, Nat.pos_iff_ne_zero]
  | cons c cs ih =>
      have hpos := units_pos c
      have htwo : units c ≤ 2 := by
        unfold units
        split <;> omega
      rw [byteOfUnit?]
      split
      · -- the text begins at the offset, so it is neither behind nor inside anything
        simp_all
      split
      · -- the character lies in front of the offset, and what counts is the text behind it
        rw [Option.map_eq_none_iff, ih, unitLength_cons]
        constructor
        · rintro (h | ⟨a, d, b, rfl, hd, h⟩)
          · exact .inl (by omega)
          · exact .inr ⟨c :: a, d, b, rfl, hd, by rw [unitLength_cons]; omega⟩
        · rintro (h | ⟨_ | ⟨e, a⟩, d, b, hcs, hd, h⟩)
          · exact .inl (by omega)
          · obtain ⟨rfl, rfl⟩ := List.cons.inj hcs
            rw [unitLength_nil] at h
            omega
          · obtain ⟨rfl, rfl⟩ := List.cons.inj hcs
            rw [unitLength_cons] at h
            exact .inr ⟨a, d, b, rfl, hd, by omega⟩
      · -- the offset is inside the character
        simp only [true_iff]
        exact .inr ⟨[], c, cs, rfl, by omega, by rw [unitLength_nil]; omega⟩

/-- Further units lead to further bytes. -/
theorem byteOfUnit?_lt {unit' byte' : Nat} (h : byteOfUnit? unit cs = some byte)
    (h' : byteOfUnit? unit' cs = some byte') (hlt : unit < unit') : byte < byte' := by
  by_contra hle
  have hunits := unitOfByte_le (isBoundary_of_byteOfUnit? h') (isBoundary_of_byteOfUnit? h)
    (Nat.le_of_not_lt hle)
  rw [unitOfByte_of_byteOfUnit? h, unitOfByte_of_byteOfUnit? h'] at hunits
  omega

end Text

namespace Editor

/-- **The two conversions of offsets undo each other.** An offset in units belongs to the boundary
in front of which the text has as many units, and to none if it is behind the text or between the
two units of one character. Going to bytes and back, or to units and back, changes no offset, and
both conversions keep the order. No offset in units is larger than the source is long in bytes. -/
theorem offsets_convert (source : String) :
    (∀ unit byte, byteOfUnit? unit source.toList = some byte ↔
        isBoundary byte source.toList ∧
          (slice? 0 byte source.toList).map unitLength = some unit) ∧
      (∀ unit byte, byteOfUnit? unit source.toList = some byte →
        unitOfByte byte source.toList = unit) ∧
      (∀ byte, isBoundary byte source.toList →
        byteOfUnit? (unitOfByte byte source.toList) source.toList = some byte) ∧
      (∀ unit, byteOfUnit? unit source.toList = none ↔
        unitLength source.toList < unit ∨
          ∃ a c b, source.toList = a ++ c :: b ∧ units c = 2 ∧ unit = unitLength a + 1) ∧
      (∀ unit unit' byte byte', byteOfUnit? unit source.toList = some byte →
        byteOfUnit? unit' source.toList = some byte' → unit < unit' → byte < byte') ∧
      (∀ byte byte', isBoundary byte source.toList → isBoundary byte' source.toList →
        byte < byte' → unitOfByte byte source.toList < unitOfByte byte' source.toList) ∧
      ∀ byte, unitOfByte byte source.toList ≤ byteLength source.toList := by
  refine ⟨fun _ _ => byteOfUnit?_eq_some_iff_slice?, fun _ _ => unitOfByte_of_byteOfUnit?,
    fun _ => byteOfUnit?_unitOfByte, fun _ => byteOfUnit?_eq_none_iff,
    fun _ _ _ _ => byteOfUnit?_lt, fun _ _ => unitOfByte_lt, ?_⟩
  intro byte
  exact (unitOfByte_le_unitLength byte _).trans (unitLength_le_byteLength _)

/-- A character of two units ends the text: one unit into it there is no boundary, and behind it the
offsets are three in units and six in bytes. -/
theorem offsets_convert_pair :
    byteOfUnit? 2 "é😀".toList = none ∧ byteOfUnit? 4 "é😀".toList = none ∧
      (isBoundary 2 "é😀".toList ∧ isBoundary 6 "é😀".toList ∧
        byteOfUnit? (unitOfByte 6 "é😀".toList) "é😀".toList = some 6 ∧
        unitOfByte 2 "é😀".toList < unitOfByte 6 "é😀".toList) ∧
      byteOfUnit? 3 "é😀".toList = some 6 ∧ unitOfByte 6 "é😀".toList = 3 := by
  obtain ⟨-, hback, hforth, hnone, -, hlt, -⟩ := offsets_convert "é😀"
  have hstart : isBoundary 2 "é😀".toList := by decide
  have hstop : isBoundary 6 "é😀".toList := by decide
  have hthree : byteOfUnit? 3 "é😀".toList = some 6 := by decide
  refine ⟨(hnone 2).mpr (.inr ⟨['é'], '😀', [], rfl, rfl, rfl⟩), (hnone 4).mpr (.inl (by decide)),
    ⟨hstart, hstop, hforth 6 hstop, hlt 2 6 hstart hstop (by decide)⟩, hthree, ?_⟩
  exact hback 3 6 hthree

end Editor

end GolfAssist
