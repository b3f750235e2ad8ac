import GolfAssist.Proofs.Completion.Reference

/-!
# How far completion has to look back

* `Completion.suffix_window_iff` — the window ends in what the text in front of the cursor ends in,
  as far as that stays in the line and in the number of bytes.
* `Completion.classify_eq_reference_front` — if three bytes more are looked at than the word that is
  being typed has, a cursor is classified by the whole text in front of it.
* `Completion.lookbehind_does_not_count` — so any two such numbers of bytes give the same answer.

Two windows begin at different places, and one of them may even leave out a character that begins
before it. Comparing them with each other would mean to compare what both of them cut off. Instead,
each is compared with the text itself, of which nothing is cut off: the longest end that the
reference asks for is a colon, a blank and a parenthesis in front of the word.
-/

namespace GolfAssist.Completion

open Text Lexicon

/-! ## Ends of the window -/

/-- A text has one longest end with a property. -/
theorem IsLongestSuffix.unique {P : List Char → Prop} {cs s s' : List Char}
    (h : IsLongestSuffix P cs s) (h' : IsLongestSuffix P cs s') : s = s' := by
  have hle := h.longest s' h'.isSuffix h'.holds
  have hge := h'.longest s h.isSuffix h.holds
  have hsuffix := List.suffix_of_suffix_length_le h.isSuffix h'.isSuffix hge
  exact hsuffix.eq_of_length (Nat.le_antisymm hge hle)

/-- Read backwards, the window ends in what the text ends in, if that stays in the line and in the
number of bytes. -/
theorem suffix_window_iff {lookbehind : Nat} {cs s : List Char} (hline : '\n' ∉ s)
    (hbytes : byteLength s ≤ lookbehind) :
    s <:+ (window lookbehind cs.reverse).reverse ↔ s <:+ cs := by
  constructor
  · intro h
    exact h.trans (isLongestSuffix_window lookbehind cs).isSuffix
  · intro h
    rw [← List.reverse_prefix, List.reverse_reverse]
    apply prefix_window (List.reverse_prefix.mpr h)
    · rwa [List.mem_reverse]
    · rwa [byteLength_reverse]

/-- A word stays in its line. -/
theorem newline_not_mem_word {word : List Char} (h : ∀ c ∈ word, isWordChar c) : '\n' ∉ word :=
  fun hmem => absurd (h _ hmem) (by decide)

/-! ## The word and the signs in front of it -/

section Front

variable {front line word : List Char} {lookbehind : Nat}
  (hline : IsLongestSuffix (fun s => '\n' ∉ s) front line)
  (hword : IsLongestSuffix (fun s => ∀ c ∈ s, isWordChar c) line word)

include hline hword

/-- The word at the end of the line is the word at the end of the window, if it fits. -/
theorem isLongestSuffix_word_window (hbytes : byteLength word ≤ lookbehind) :
    IsLongestSuffix (fun s => ∀ c ∈ s, isWordChar c) (window lookbehind front.reverse).reverse
      word := by
  have hfront := hword.isSuffix.trans hline.isSuffix
  refine ⟨(suffix_window_iff (newline_not_mem_word hword.holds) hbytes).mpr hfront, hword.holds, ?_⟩
  intro s hs hchars
  have hsfront : s <:+ front := hs.trans (isLongestSuffix_window lookbehind front).isSuffix
  have hlength := hline.longest s hsfront (newline_not_mem_word hchars)
  exact hword.longest s (List.suffix_of_suffix_length_le hsfront hline.isSuffix hlength) hchars

omit hline

/-- With three bytes more than the word, the window ends in the signs of the reference, with the
word behind them, where the text does. -/
theorem reference_window (hbytes : byteLength word + 3 ≤ lookbehind) (inType explicit : Bool)
    (cursor : Nat) :
    reference inType explicit cursor (window lookbehind front.reverse).reverse word =
      reference inType explicit cursor front word := by
  have hsigns : ∀ signs : List Char, '\n' ∉ signs → byteLength signs ≤ 3 →
      (signs ++ word <:+ (window lookbehind front.reverse).reverse ↔ signs ++ word <:+ front) := by
    intro signs hnewline hthree
    apply suffix_window_iff
    · rw [List.mem_append, not_or]
      exact ⟨hnewline, newline_not_mem_word hword.holds⟩
    · rw [byteLength_append]
      omega
  have hsigil := hsigns ['$'] (by decide) (by decide)
  have hopened := or_congr (hsigns [':', '('] (by decide) (by decide))
    (hsigns [':', ' ', '('] (by decide) (by decide))
  have hplain := or_congr (hsigns [':'] (by decide) (by decide))
    (hsigns [':', ' '] (by decide) (by decide))
  have hparen : ['('] <:+ (window lookbehind front.reverse).reverse ↔ ['('] <:+ front :=
    suffix_window_iff (by decide) (Nat.le_trans (by decide) (Nat.le_of_add_left_le hbytes))
  simp only [List.cons_append, List.nil_append] at hsigil hopened hplain
  unfold reference
  simp only [hsigil, hopened, hplain, hparen]

end Front

/-! ## Sources -/

variable {source : String} {tree : Node} {cursor : Nat} {explicit : Bool}
  {front line word : List Char}

/-- If enough is looked at, a cursor is classified by the whole text in front of it. -/
theorem classify_eq_reference_front (hfront : slice? 0 cursor source.toList = some front)
    (hline : IsLongestSuffix (fun s => '\n' ∉ s) front line)
    (hword : IsLongestSuffix (fun s => ∀ c ∈ s, isWordChar c) line word) {config : Config}
    (hbytes : byteLength word + 3 ≤ config.lookbehind) :
    classify source tree cursor explicit config =
      .ok (reference ((tree.resolve cursor .before).within .typeSexpr) explicit cursor front
        word) := by
  obtain ⟨after, hsource⟩ := slice?_zero_eq_some_iff.mp hfront
  have hsplit := splitAt?_eq_some_iff.mpr hsource
  have hsame : ((window config.lookbehind front.reverse).takeWhile isWordChar).reverse = word :=
    (isLongestSuffix_word _).unique (isLongestSuffix_word_window hline hword (by omega))
  rw [classify, hsplit]
  dsimp only
  rw [classifyBehind_eq_reference, hsame, reference_window hword hbytes]

/-- **It does not count how far one looks back, if it is far enough.** Let `word` be the longest end
of the cursor's line, up to the cursor, that is made of the characters of words. If two numbers of
bytes are both greater than its length by three or more, the cursor is classified in the same way
whichever of them is looked at. -/
theorem lookbehind_does_not_count (hfront : slice? 0 cursor source.toList = some front)
    (hline : IsLongestSuffix (fun s => '\n' ∉ s) front line)
    (hword : IsLongestSuffix (fun s => ∀ c ∈ s, isWordChar c) line word) {config config' : Config}
    (hbytes : byteLength word + 3 ≤ config.lookbehind)
    (hbytes' : byteLength word + 3 ≤ config'.lookbehind) :
    ∃ found, classify source tree cursor explicit config = .ok found ∧
      classify source tree cursor explicit config' = .ok found :=
  ⟨_, classify_eq_reference_front hfront hline hword hbytes,
    classify_eq_reference_front hfront hline hword hbytes'⟩

/-- One window begins right in front of the colon, the other one inside the character before it. -/
theorem lookbehind_does_not_count_cut :
    slice? 0 9 "$\né: (Li".toList = some "$\né: (Li".toList ∧
      IsLongestSuffix (fun s => '\n' ∉ s) "$\né: (Li".toList "é: (Li".toList ∧
      IsLongestSuffix (fun s => ∀ c ∈ s, isWordChar c) "é: (Li".toList "Li".toList ∧
      byteLength "Li".toList + 3 = 5 ∧
      classify "$\né: (Li" (.empty 0) 9 false ⟨5⟩ = .ok (some ⟨.typePosition, 6⟩) ∧
      classify "$\né: (Li" (.empty 0) 9 false ⟨6⟩ = .ok (some ⟨.typePosition, 6⟩) := by
  have hfront : slice? 0 9 "$\né: (Li".toList = some "$\né: (Li".toList := rfl
  have hline : IsLongestSuffix (fun s => '\n' ∉ s) "$\né: (Li".toList "é: (Li".toList := by
    refine ⟨by decide, by decide, fun s hs hnewline => ?_⟩
    by_contra hlonger
    have hbreak : "\né: (Li".toList <:+ s :=
      List.suffix_of_suffix_length_le (by decide) hs (Nat.lt_of_not_le hlonger)
    exact hnewline (hbreak.subset List.mem_cons_self)
  have hword : IsLongestSuffix (fun s => ∀ c ∈ s, isWordChar c) "é: (Li".toList "Li".toList :=
    isLongestSuffix_word "é: (Li".toList.reverse
  obtain ⟨found, hfive, hsix⟩ := @lookbehind_does_not_count "$\né: (Li" (.empty 0) 9 false _ _ _
    hfront hline hword ⟨5⟩ ⟨6⟩ (by decide) (by decide)
  have hfound : classify "$\né: (Li" (.empty 0) 9 false ⟨5⟩ = .ok (some ⟨.typePosition, 6⟩) := rfl
  rw [hsix, ← hfive]
  exact ⟨hfront, hline, hword, rfl, hfound, hfound⟩

-- with two bytes more than the word, the colon can be missed
example : classify ": (" (.empty 3) 3 false ⟨2⟩ = .ok (some ⟨.general, 3⟩) ∧
    classify ": (" (.empty 3) 3 false ⟨3⟩ = .ok (some ⟨.typePosition, 2⟩) := ⟨rfl, rfl⟩

end GolfAssist.Completion
