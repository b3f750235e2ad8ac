import GolfAssist.Proofs.Token.Rule

/-!
# Where the tokens of a source stand

* `Token.exists_split_of_mem_lex` — a token is a part of the source and stands where it says: the
  source is some text, the text of the token and some more text, and the first of these is as
  long as the start of the token.
* `Token.lex_pairwise`, `Token.lex_pairwise_start` — tokens come in the order of the source and do
  not overlap, so that no two of them start at one place.
* `Token.start_lt_stop_of_mem_scan`, `Token.kind_ne_eof_of_mem_scan` — every token but the last one
  has a text and marks no end.

All of it is read off one statement about `scan`, which passes over `skip` characters before it
looks for a token: what it finds stands behind them.
-/

namespace GolfAssist.Token

open Text

/-! ## Tokens of a scan -/

/-- A token ends behind its characters. -/
theorem stop_ofList (kind : Kind) (start : Nat) (cs : List Char) :
    (⟨kind, start, String.ofList cs⟩ : Token).stop = start + byteLength cs := by
  rw [stop, String.toList_ofList]

/-- A token that is scanned is a part of the text, behind the characters that are skipped. -/
theorem exists_split_of_mem_scan {skip offset : Nat} {cs : List Char} {t : Token}
    (h : t ∈ scan skip offset cs) :
    ∃ a b, cs = a ++ t.text.toList ++ b ∧ t.start = offset + byteLength a ∧ skip ≤ a.length := by
  fun_induction scan skip offset cs with
  | case1 => simp at h
  | case2 skip offset c cs ih =>
      obtain ⟨a, b, rfl, hs, hl⟩ := ih h
      refine ⟨c :: a, b, rfl, ?_, ?_⟩
      · rw [hs, byteLength_cons, Nat.add_assoc]
      · rw [List.length_cons]
        omega
  | case3 offset c cs hblank ih =>
      obtain ⟨a, b, rfl, hs, -⟩ := ih h
      refine ⟨c :: a, b, rfl, ?_, Nat.zero_le _⟩
      rw [hs, byteLength_cons, Nat.add_assoc]
  | case4 offset c cs hblank kind length hmunch ih =>
      rcases List.mem_cons.mp h with rfl | h
      · refine ⟨[], cs.drop length, ?_, rfl, Nat.zero_le _⟩
        simp
      · obtain ⟨a, b, rfl, hs, -⟩ := ih h
        refine ⟨c :: a, b, rfl, ?_, Nat.zero_le _⟩
        rw [hs, byteLength_cons, Nat.add_assoc]

/-- A token that is scanned starts behind the characters that are skipped. -/
theorem le_start_of_mem_scan {skip offset : Nat} {cs : List Char} {t : Token}
    (h : t ∈ scan skip offset cs) : offset + byteLength (cs.take skip) ≤ t.start := by
  obtain ⟨a, b, rfl, hs, hl⟩ := exists_split_of_mem_scan h
  have htake : (a ++ t.text.toList ++ b).take skip = a.take skip := by
    rw [List.append_assoc, List.take_append_of_le_length hl]
  have ha : byteLength a = byteLength (a.take skip) + byteLength (a.drop skip) := by
    rw [← byteLength_append, List.take_append_drop]
  rw [htake, hs, ha]
  omega

/-- Scanned tokens come in the order of the text and do not overlap. -/
theorem scan_pairwise (skip offset : Nat) (cs : List Char) :
    (scan skip offset cs).Pairwise fun a b => a.stop ≤ b.start := by
  fun_induction scan skip offset cs with
  | case1 => exact .nil
  | case2 skip offset c cs ih => exact ih
  | case3 offset c cs hblank ih => exact ih
  | case4 offset c cs hblank kind length hmunch ih =>
      refine List.pairwise_cons.mpr ⟨fun t ht => ?_, ih⟩
      have hle := le_start_of_mem_scan ht
      simp only [stop, String.toList_ofList, byteLength_cons]
      omega

/-- No rule of the lexer makes the token that ends a source. -/
theorem munch_ne_eof (c : Char) (cs : List Char) : (munch c cs).1 ≠ .eof := by
  intro h
  have hrule := munch_rule c cs
  rw [h] at hrule
  generalize (munch c cs).2 = length at hrule
  cases hrule with
  | punctuation hc => exact absurd (kind_of_punctuation? hc) (by decide)

/-- A scanned token has a text and does not mark the end. -/
theorem text_ne_nil_and_kind_ne_eof_of_mem_scan {skip offset : Nat} {cs : List Char} {t : Token}
    (h : t ∈ scan skip offset cs) : t.text.toList ≠ [] ∧ t.kind ≠ .eof := by
  fun_induction scan skip offset cs with
  | case1 => simp at h
  | case2 skip offset c cs ih => exact ih h
  | case3 offset c cs hblank ih => exact ih h
  | case4 offset c cs hblank kind length hmunch ih =>
      rcases List.mem_cons.mp h with rfl | h
      · have hk := munch_ne_eof c cs
        rw [hmunch] at hk
        exact ⟨by simp, hk⟩
      · exact ih h

/-- A scanned token does not mark the end. -/
theorem kind_ne_eof_of_mem_scan {skip offset : Nat} {cs : List Char} {t : Token}
    (h : t ∈ scan skip offset cs) : t.kind ≠ .eof :=
  (text_ne_nil_and_kind_ne_eof_of_mem_scan h).2

/-- A scanned token is not empty. -/
theorem start_lt_stop_of_mem_scan {skip offset : Nat} {cs : List Char} {t : Token}
    (h : t ∈ scan skip offset cs) : t.start < t.stop := by
  have hne := (text_ne_nil_and_kind_ne_eof_of_mem_scan h).1
  unfold stop
  cases htext : t.text.toList with
  | nil => exact absurd htext hne
  | cons c cs =>
      have hc := c.utf8Size_pos
      rw [byteLength_cons]
      omega

/-! ## Tokens of a source -/

/-- A token is a part of the source and stands where it says. -/
theorem exists_split_of_mem_lex {source : String} {t : Token} (h : t ∈ lex source) :
    ∃ a b, source.toList = a ++ t.text.toList ++ b ∧ t.start = byteLength a := by
  rcases List.mem_append.mp h with h | h
  · obtain ⟨a, b, hab, hs, -⟩ := exists_split_of_mem_scan h
    exact ⟨a, b, hab, by rw [hs, Nat.zero_add]⟩
  · obtain rfl := List.mem_singleton.mp h
    exact ⟨source.toList, [], by simp [ending], rfl⟩

/-- The text of a token is what the source has at its place. -/
theorem slice?_of_mem_lex {source : String} {t : Token} (h : t ∈ lex source) :
    slice? t.start t.stop source.toList = some t.text.toList := by
  obtain ⟨a, b, hab, hs⟩ := exists_split_of_mem_lex h
  exact slice?_eq_some_iff.mpr ⟨a, b, hab, hs.symm, rfl⟩

/-- Both ends of a token fall between characters. -/
theorem isBoundary_of_mem_lex {source : String} {t : Token} (h : t ∈ lex source) :
    isBoundary t.start source.toList ∧ isBoundary t.stop source.toList := by
  obtain ⟨a, b, hab, hs⟩ := exists_split_of_mem_lex h
  refine ⟨isBoundary_iff.mpr ⟨a, t.text.toList ++ b, ?_, hs.symm⟩,
    isBoundary_iff.mpr ⟨a ++ t.text.toList, b, hab, ?_⟩⟩
  · rw [hab, List.append_assoc]
  · rw [byteLength_append, stop, hs]

/-- Tokens come in the order of the source and do not overlap. -/
theorem lex_pairwise (source : String) : (lex source).Pairwise fun a b => a.stop ≤ b.start := by
  refine List.pairwise_append.mpr ⟨scan_pairwise _ _ _, List.pairwise_singleton _ _, ?_⟩
  intro t ht e he
  obtain rfl := List.mem_singleton.mp he
  obtain ⟨a, b, hab, hs, -⟩ := exists_split_of_mem_scan ht
  rw [hab]
  simp only [ending, stop, hs, byteLength_append]
  omega

/-- Every token starts behind the starts of those before it. -/
theorem lex_pairwise_start (source : String) :
    (lex source).Pairwise fun a b => a.start < b.start := by
  obtain ⟨hscan, -, hending⟩ := List.pairwise_append.mp (lex_pairwise source)
  refine List.pairwise_append.mpr ⟨?_, List.pairwise_singleton _ _, ?_⟩
  · apply hscan.imp_of_mem
    intro a b ha _ hle
    exact Nat.lt_of_lt_of_le (start_lt_stop_of_mem_scan ha) hle
  · intro a ha b hb
    exact Nat.lt_of_lt_of_le (start_lt_stop_of_mem_scan ha) (hending a ha b hb)

end GolfAssist.Token
