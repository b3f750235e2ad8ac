import GolfAssist.Completion.Candidate
import GolfAssist.Proofs.Completion.Reference
import GolfAssist.Proofs.Leaves
import GolfAssist.Proofs.Token.Cover

/-!
# The variables that are offered

* `Completion.start_eq_iff` — where the name of a variable is completed, the variable under the
  cursor is the one that starts at the anchor.
* `Completion.variable_candidates` — what is offered are the texts of all variables of the source in
  their order, without the one under the cursor.

The anchor is found in the text in front of the cursor, and the variables are leaves of the tree.
Both are a sigil with characters of words behind it, but the one ends at the cursor and the other
where the characters of words end. As no sigil is among these characters, there is no room for a
second one between the two starts.
-/

namespace GolfAssist.Completion

open Text Lexicon

/-! ## Two readings of the same text -/

/-- Characters of words do not reach over a sigil. -/
theorem byteLength_le_of_sigil {word b e x : List Char} (hword : ∀ c ∈ word, isWordChar c)
    (h : word ++ b = e ++ sigil :: x) : byteLength word ≤ byteLength e := by
  rcases Token.append_eq_append_cons h with ⟨word', rfl⟩ | ⟨e', rfl, -⟩
  · exact absurd (hword sigil (by simp)) (by decide)
  · rw [byteLength_append]
    omega

/-- Characters of words do not reach over the end of a word. -/
theorem byteLength_le_of_end {word word' b b' : List Char} (hword : ∀ c ∈ word, isWordChar c)
    (hb : b'.head?.any isWordChar = false) (h : word ++ b = word' ++ b') :
    byteLength word ≤ byteLength word' := by
  rcases List.append_eq_append_iff.mp h with ⟨e, rfl, -⟩ | ⟨e, rfl, rfl⟩
  · rw [byteLength_append]
    omega
  · cases e with
    | nil => rw [List.append_nil]
    | cons c e =>
        have hc := hword c (by simp)
        simp [hc] at hb

/-- Two variables of the same text of which the first is cut at the cursor. They start at the same
place if and only if the cursor is in the second one. -/
theorem start_eq_iff {a word b a' word' b' : List Char}
    (h : a ++ sigil :: word ++ b = a' ++ sigil :: word' ++ b')
    (hword : ∀ c ∈ word, isWordChar c) (hword' : ∀ c ∈ word', isWordChar c)
    (hb' : b'.head?.any isWordChar = false) :
    byteLength a' = byteLength a ↔ byteLength a' < byteLength (a ++ sigil :: word) ∧
      byteLength (a ++ sigil :: word) ≤ byteLength (a' ++ sigil :: word') := by
  have hpos := sigil.utf8Size_pos
  rw [List.append_assoc, List.append_assoc, List.cons_append, List.cons_append] at h
  simp only [byteLength_append, byteLength_cons]
  constructor
  · intro hlength
    obtain ⟨-, htail⟩ := Prod.mk.inj (Option.some.inj (
      (splitAt?_append a (sigil :: (word ++ b))).symm.trans
        (splitAt?_eq_some_iff.mpr ⟨h, hlength⟩)))
    have hle := byteLength_le_of_end hword hb' (List.cons.inj htail).2
    omega
  · rintro ⟨hlt, hle⟩
    rcases List.append_eq_append_iff.mp h with ⟨e, rfl, he⟩ | ⟨e, rfl, he⟩
    · cases e with
      | nil => rw [List.append_nil]
      | cons c e =>
          have hover := byteLength_le_of_sigil hword (List.cons.inj he).2
          rw [byteLength_append, byteLength_cons] at hlt
          rw [← (List.cons.inj he).1] at hlt
          omega
    · cases e with
      | nil => rw [List.append_nil]
      | cons c e =>
          have hover := byteLength_le_of_sigil hword' (List.cons.inj he).2
          rw [byteLength_append, byteLength_cons] at hle
          rw [← (List.cons.inj he).1] at hle
          omega

/-! ## Candidates -/

/-- A completion is a classification with what is offered for it. -/
theorem complete_eq_some_iff {source : String} {cursor : Nat} {explicit : Bool} {config : Config}
    {completion : Completion} :
    complete source cursor explicit config = .ok (some completion) ↔
      ∃ c, classify source (Document.read source).tree cursor explicit config = .ok (some c) ∧
        completion = ⟨c.context, c.anchor, offered source (Document.read source).tree c⟩ := by
  unfold complete completeIn
  cases h : classify source (Document.read source).tree cursor explicit config with
  | error e => simp [Except.map]
  | ok found => cases found <;> simp [Except.map, eq_comm]

variable {source : String} {tree : Node} {cursor anchor : Nat} {explicit : Bool} {config : Config}

/-- The variable under the cursor is the one that starts at the anchor. -/
theorem start_eq_anchor_iff {n : Node}
    (h : classify source tree cursor explicit config = .ok (some ⟨.variableReference, anchor⟩))
    (hn : n ∈ (Document.read source).occurrences) :
    n.span.start = anchor ↔ n.span.start < cursor ∧ cursor ≤ n.span.stop := by
  obtain ⟨a, word, b, hsource, rfl, rfl, hword, -⟩ := classify_eq_variable_iff.mp h
  obtain ⟨hmem, hk⟩ := Document.mem_occurrences_iff.mp hn
  obtain ⟨a', word', b', hsource', hspan, hword', hb'⟩ :=
    Document.exists_word_of_mem_preorder hmem hk
  rw [hspan]
  exact start_eq_iff (hsource.symm.trans hsource') hword hword' hb'

/-- The texts of the variables, without the one that starts at the anchor. -/
theorem variableCandidates_eq (source : String) (anchor : Nat) :
    variableCandidates source (Document.read source).tree anchor =
      ((Document.read source).occurrences.filter fun n => n.span.start ≠ anchor).map
        fun n => ⟨n.text source, .variable, none⟩ := by
  unfold variableCandidates Node.textsOf Document.occurrences
  rw [List.map_map, List.filter_filter]
  congr 1
  apply List.filter_congr
  intro n _
  simp [Bool.and_comm, eq_comm]

/-- The text of a variable is a sigil and characters of words. -/
theorem exists_word_of_mem_occurrences {n : Node} (hn : n ∈ (Document.read source).occurrences) :
    ∃ word, (n.text source).toList = sigil :: word ∧ ∀ c ∈ word, isWordChar c := by
  obtain ⟨hmem, hk⟩ := Document.mem_occurrences_iff.mp hn
  obtain ⟨a, word, b, hsource, hspan, hword, -⟩ := Document.exists_word_of_mem_preorder hmem hk
  have hslice : slice? n.span.start n.span.stop source.toList = some (sigil :: word) :=
    slice?_eq_some_iff.mpr ⟨a, b, hsource, by rw [hspan], by rw [hspan, byteLength_append]⟩
  refine ⟨word, ?_, hword⟩
  rw [Node.text_of_slice hslice, String.toList_ofList]

end GolfAssist.Completion
