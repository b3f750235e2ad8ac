import GolfAssist.Text.Bytes
import Mathlib.Data.String.Basic

/-!
# The bytes of a text

* `Text.bytes` — the bytes of a text in UTF-8.
* `Text.getElem?_bytes_eq_feed_iff` — a byte is a line feed if and only if the character that it
  belongs to is.
* `Text.bytes_le_iff` — texts are in the same order by their bytes as by their characters.

Both facts rest on how the bytes of a character are made. All bytes of a character behind ASCII are
above those of ASCII, so none of them is a line feed. The first byte grows with the number of bytes,
and for equal numbers the bytes are the digits of the character in base 64, so of two characters the
greater one has the greater byte where they first differ.
-/

namespace GolfAssist.Text

/-- The bytes of a text in UTF-8. -/
def bytes (source : String) : List UInt8 := source.toUTF8.data.toList

/-- The bytes of a text are those of its characters, one after the other. -/
theorem bytes_eq_flatMap (source : String) :
    bytes source = source.toList.flatMap String.utf8EncodeChar := by
  rw [bytes, String.toUTF8_eq_toByteArray, ← String.utf8Encode_toList, List.utf8Encode]
  exact List.toList_data_toByteArray

/-- The code points end at 0x10FFFF. -/
theorem toNat_val_lt (c : Char) : c.val.toNat < 0x110000 := by
  rcases c.valid with h | h <;> omega

/-! ## Line feeds -/

/-- Only a line feed has the byte of a line feed. -/
theorem eq_newline_of_mem_utf8EncodeChar {c : Char} (h : 10 ∈ String.utf8EncodeChar c) :
    c = '\n' := by
  have hlt := toNat_val_lt c
  unfold String.utf8EncodeChar at h
  dsimp only at h
  apply Char.ext
  rw [← UInt32.toNat_inj]
  show c.val.toNat = 10
  generalize c.val.toNat = m at h hlt
  split_ifs at h <;>
    simp only [List.mem_cons, List.not_mem_nil, or_false, ← UInt8.toNat_inj, UInt8.toNat_ofNat',
      UInt8.reduceToNat, Nat.reducePow] at h
  all_goals omega

/-- A byte among those of the characters is a line feed if a character at its place is. -/
theorem getElem?_flatMap_eq_feed_iff {cs : List Char} {i : Nat} :
    (cs.flatMap String.utf8EncodeChar)[i]? = some 10 ↔
      ∃ a b, cs = a ++ '\n' :: b ∧ byteLength a = i := by
  induction cs generalizing i with
  | nil => simp
  | cons c cs ih =>
      rw [List.flatMap_cons]
      rcases Nat.lt_or_ge i c.utf8Size with hi | hi
      · -- the byte is one of the first character
        rw [List.getElem?_append_left (by rwa [String.length_utf8EncodeChar])]
        constructor
        · intro h
          obtain rfl := eq_newline_of_mem_utf8EncodeChar (List.mem_of_getElem? h)
          have hzero : i = 0 := Nat.lt_one_iff.mp hi
          exact ⟨[], cs, rfl, hzero.symm⟩
        · rintro ⟨_ | ⟨d, a⟩, b, hcs, rfl⟩
          · obtain ⟨rfl, rfl⟩ := List.cons.inj hcs
            rfl
          · obtain ⟨rfl, rfl⟩ := List.cons.inj hcs
            rw [byteLength_cons] at hi
            omega
      · -- the byte belongs to what is behind the first character
        rw [List.getElem?_append_right (by rwa [String.length_utf8EncodeChar]),
          String.length_utf8EncodeChar, ih]
        constructor
        · rintro ⟨a, b, rfl, h⟩
          exact ⟨c :: a, b, rfl, by rw [byteLength_cons]; omega⟩
        · rintro ⟨_ | ⟨d, a⟩, b, hcs, rfl⟩
          · have hpos := c.utf8Size_pos
            rw [byteLength_nil] at hi
            omega
          · obtain ⟨rfl, rfl⟩ := List.cons.inj hcs
            exact ⟨a, b, rfl, by rw [byteLength_cons]; omega⟩

/-- **Line feeds among bytes and among characters.** The byte at an offset is a line feed if and
only if the character that begins there is one. -/
theorem getElem?_bytes_eq_feed_iff {source : String} {i : Nat} :
    (bytes source)[i]? = some 10 ↔ ∃ a b, source.toList = a ++ '\n' :: b ∧ byteLength a = i := by
  rw [bytes_eq_flatMap, getElem?_flatMap_eq_feed_iff]

/-! ## Order -/

/-- Of two characters the greater one has the greater bytes, whatever follows on them. -/
theorem utf8EncodeChar_append_lt {c d : Char} (h : c < d) (r r' : List UInt8) :
    String.utf8EncodeChar c ++ r < String.utf8EncodeChar d ++ r' := by
  have hlt : c.val.toNat < d.val.toNat := h
  have hd := toNat_val_lt d
  have hdiv : ∀ k, k / 4096 = k / 64 / 64 ∧ k / 262144 = k / 64 / 64 / 64 := by
    intro k
    simp only [Nat.div_div_eq_div_mul]
    trivial
  unfold String.utf8EncodeChar
  dsimp only
  generalize c.val.toNat = m at hlt
  generalize d.val.toNat = n at hlt hd
  -- one case for each pair of lengths; in all of them the bytes are digits in base 64
  split_ifs <;>
    simp only [List.cons_append, List.nil_append, List.cons_lt_cons_iff, UInt8.lt_iff_toNat_lt,
      ← UInt8.toNat_inj, UInt8.toNat_ofNat', Nat.reducePow, hdiv] <;>
    simp (disch := omega) only [Nat.mod_eq_of_lt]
  all_goals omega

/-- Of two texts the greater one has the greater bytes. -/
theorem flatMap_utf8EncodeChar_lt {cs ds : List Char} (h : cs < ds) :
    cs.flatMap String.utf8EncodeChar < ds.flatMap String.utf8EncodeChar := by
  induction h with
  | @nil d ds =>
      rw [List.flatMap_nil, List.flatMap_cons]
      obtain ⟨b, bs, hb⟩ := List.exists_cons_of_ne_nil (String.utf8EncodeChar_ne_nil (c := d))
      rw [hb, List.cons_append]
      exact List.nil_lt_cons _ _
  | rel h =>
      rw [List.flatMap_cons, List.flatMap_cons]
      exact utf8EncodeChar_append_lt h _ _
  | cons _ ih =>
      rw [List.flatMap_cons, List.flatMap_cons]
      exact List.append_left_lt ih

/-- **The order of texts is that of their bytes.** -/
theorem bytes_le_iff {s t : String} : bytes s ≤ bytes t ↔ s ≤ t := by
  have hmono : ∀ {s t : String}, s < t → bytes s < bytes t := by
    intro s t h
    rw [bytes_eq_flatMap, bytes_eq_flatMap]
    exact flatMap_utf8EncodeChar_lt (String.lt_iff_toList_lt.mp h)
  constructor
  · intro h
    by_contra hlt
    exact absurd (hmono (not_le.mp hlt)) (List.not_lt.mpr h)
  · intro h
    rcases h.lt_or_eq with h | rfl
    · exact List.le_of_lt (hmono h)
    · exact List.le_refl _

end GolfAssist.Text
