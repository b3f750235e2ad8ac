import GolfAssist.Text.Bytes

/-!
# UTF-16 offsets

Editors count the code units of the UTF-16 form of a text; the library counts bytes.

* `Text.unitLength` — the length of a text in code units.
* `Text.byteOfUnit?` — the byte offset of the character boundary at a unit offset, if the unit
  offset is one.
* `Text.unitOfByte` — the unit offset of a byte offset. A byte offset that is no boundary of the
  text counts as its end.
-/

namespace GolfAssist.Text

/-- The number of code units of a character: one in the basic plane, two above it. -/
def units (c : Char) : Nat := if c.toNat ≤ 0xFFFF then 1 else 2

/-- The number of code units of the text. -/
def unitLength : List Char → Nat
  | [] => 0
  | c :: cs => units c + unitLength cs

/-- The byte offset of the boundary that has the given number of code units before it; nothing
past the end or between the two units of one character. -/
def byteOfUnit? (offset : Nat) : List Char → Option Nat
  | [] => if offset = 0 then some 0 else none
  | c :: cs =>
    if offset = 0 then some 0
    else if units c ≤ offset then
      (byteOfUnit? (offset - units c) cs).map (c.utf8Size + ·)
    else none

/-- The number of code units before a byte offset, or of the whole text where the offset is no
boundary. -/
def unitOfByte (offset : Nat) (cs : List Char) : Nat :=
  match splitAt? offset cs with
  | some (before, _) => unitLength before
  | none => unitLength cs

@[simp] theorem unitLength_nil : unitLength [] = 0 := rfl

@[simp] theorem unitLength_cons (c : Char) (cs : List Char) :
    unitLength (c :: cs) = units c + unitLength cs := rfl

@[simp] theorem unitLength_append (a b : List Char) :
    unitLength (a ++ b) = unitLength a + unitLength b := by
  induction a with
  | nil => simp
  | cons c a ih => simp [ih, Nat.add_assoc]

/-- Behind a first part of the text, the units counted are those of that part. -/
@[simp] theorem unitOfByte_append (a b : List Char) :
    unitOfByte (byteLength a) (a ++ b) = unitLength a := by
  rw [unitOfByte, splitAt?_append]

/-- Every character has a unit. -/
theorem units_pos (c : Char) : 0 < units c := by
  unfold units
  split <;> simp

/-- At the units of a first part of the text stand its bytes. -/
@[simp] theorem byteOfUnit?_append (a b : List Char) :
    byteOfUnit? (unitLength a) (a ++ b) = some (byteLength a) := by
  induction a with
  | nil => cases b <;> simp [byteOfUnit?]
  | cons c a ih =>
    have hc := units_pos c
    simp only [List.cons_append, byteOfUnit?, unitLength_cons]
    rw [if_neg (by omega), if_pos (by omega), Nat.add_sub_cancel_left, ih]
    rfl

/-- A byte offset stands at a unit offset if they are the lengths of one first part of the text. -/
theorem byteOfUnit?_eq_some_iff {offset byte : Nat} {cs : List Char} :
    byteOfUnit? offset cs = some byte ↔
      ∃ a b, cs = a ++ b ∧ unitLength a = offset ∧ byteLength a = byte := by
  constructor
  · intro h
    induction cs generalizing offset byte with
    | nil =>
      simp only [byteOfUnit?] at h
      split at h
      · exact ⟨[], [], rfl, by simp_all, by simp_all⟩
      · simp at h
    | cons c cs ih =>
      simp only [byteOfUnit?] at h
      split at h
      · exact ⟨[], c :: cs, rfl, by simp_all, by simp_all⟩
      · split at h
        · simp only [Option.map_eq_some_iff] at h
          obtain ⟨byte, hbyte, rfl⟩ := h
          obtain ⟨a, b, rfl, ha, rfl⟩ := ih hbyte
          refine ⟨c :: a, b, rfl, ?_, rfl⟩
          rw [unitLength_cons, ha]
          omega
        · simp at h
  · rintro ⟨a, b, rfl, rfl, rfl⟩
    exact byteOfUnit?_append a b

end GolfAssist.Text
