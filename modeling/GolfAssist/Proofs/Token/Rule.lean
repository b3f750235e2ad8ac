import GolfAssist.Token.Lexer

/-!
# The rules of the lexer

* `Token.Rule` — the rules by which a token is taken, each with the condition under which it
  applies: which sort of token begins with a character, and how much of what follows belongs to it.
* `Token.munch_rule`, `Token.Rule.munch_eq` — the lexer follows the rules, and no two of them apply
  to the same text in different ways.

The lexer tries one rule after the other, so each of its branches stands under the failure of all
before. The conditions here stand for themselves: what a proof has to know about a token is read off
its rule, and the order of the branches is looked at only in this module.
-/

namespace GolfAssist.Token

open Text Lexicon

/-! ## Rules -/

/-- The character alone decides what begins with it. -/
def isMark (c : Char) : Bool :=
  c = commentMark || c = sigil || c = '"' || (punctuation? c).isSome

/-- A token of a sort begins with `c`, and so many of the characters `cs` behind it belong to it. -/
inductive Rule (c : Char) (cs : List Char) : Kind → Nat → Prop where
  /-- A comment goes on to the end of its line. -/
  | comment (hc : c = commentMark) : Rule c cs .lineComment (run (· != '\n') cs)
  /-- The name of a variable goes on as long as words do. -/
  | name (hc : c = sigil) : Rule c cs .variable (run isWordChar cs)
  /-- A literal goes on to the first quote that is not escaped. -/
  | literal (hc : c = '"') : Rule c cs .string (literalLength cs)
  /-- Punctuation is one character. -/
  | punctuation {kind : Kind} (hc : punctuation? c = some kind) : Rule c cs kind 0
  /-- A number goes on as long as there are digits. -/
  | digits (hc : c.isDigit) : Rule c cs .integer (run Char.isDigit cs)
  /-- So does a number with a minus sign. -/
  | negative (hc : c = '-') (hd : cs.head?.any Char.isDigit) :
      Rule c cs .integer (run Char.isDigit cs)
  /-- An infinity behind a minus sign is no part of a longer word. -/
  | negativeInfinity (hc : c = '-') (hoo : startsInfinity cs) : Rule c cs .integer 2
  /-- Any other infinity looks like a word. -/
  | infinity (hc : isWordStart c) (hoo : c :: cs.take (run isWordChar cs) = ['o', 'o']) :
      Rule c cs .integer (run isWordChar cs)
  /-- A word goes on as long as it can. -/
  | word (hc : isWordStart c) (hoo : c :: cs.take (run isWordChar cs) ≠ ['o', 'o']) :
      Rule c cs .word (run isWordChar cs)
  /-- An operator is the longest alias made of signs, if it is not the minus sign of a number. -/
  | operator {sign : String} (hc : isMark c = false ∧ c.isDigit = false ∧ isWordStart c = false)
      (hneg : c = '-' → cs.head?.any Char.isDigit = false ∧ startsInfinity cs = false)
      (ha : symbolicAlias? (c :: cs) = some sign) : Rule c cs .op (sign.length - 1)
  /-- A character that begins nothing is unknown. -/
  | unknown (hc : isMark c = false ∧ c.isDigit = false ∧ isWordStart c = false)
      (ha : symbolicAlias? (c :: cs) = none) : Rule c cs .unknown 0

/-! ## The branches of the lexer -/

/-- Behind a character that does not decide by itself, digits come first, then words, then signs. -/
theorem munch_of_not_isMark {c : Char} (h : isMark c = false) (cs : List Char) :
    munch c cs =
      if c.isDigit then (.integer, run Char.isDigit cs)
      else if c = '-' ∧ cs.head?.any Char.isDigit then (.integer, run Char.isDigit cs)
      else if c = '-' ∧ startsInfinity cs then (.integer, 2)
      else if isWordStart c then
        (if c :: cs.take (run isWordChar cs) = ['o', 'o'] then .integer else .word,
          run isWordChar cs)
      else
        match symbolicAlias? (c :: cs) with
        | some name => (.op, name.length - 1)
        | none => (.unknown, 0) := by
  simp only [isMark, Bool.or_eq_false_iff, decide_eq_false_iff_not, Option.isSome_eq_false_iff,
    Option.isNone_iff_eq_none] at h
  obtain ⟨⟨⟨hcomment, hsigil⟩, hquote⟩, hp⟩ := h
  rw [munch, if_neg hcomment, if_neg hsigil, if_neg hquote]
  generalize punctuation? c = mark at hp
  subst hp
  rfl

/-- A character that decides by itself is no digit, begins no word and is no minus sign. -/
theorem class_of_isMark {c : Char} (h : isMark c) :
    c.isDigit = false ∧ isWordStart c = false ∧ c ≠ '-' := by
  simp only [isMark, Bool.or_eq_true, decide_eq_true_eq] at h
  rcases h with ((rfl | rfl) | rfl) | h
  · decide
  · decide
  · decide
  · unfold punctuation? at h
    split at h <;> first | decide | cases h

/-- A digit, what begins a word, and a minus sign do not decide by themselves. -/
theorem isMark_eq_false {c : Char} (h : c.isDigit ∨ isWordStart c ∨ c = '-') :
    isMark c = false := by
  rw [Bool.eq_false_iff]
  intro hmark
  obtain ⟨hdigit, hword, hminus⟩ := class_of_isMark hmark
  simp_all

/-- Punctuation is of a sort of its own. -/
theorem kind_of_punctuation? {c : Char} {kind : Kind} (h : punctuation? c = some kind) :
    kind ∈ [.openParen, .closeParen, .openBrace, .closeBrace, .colon, .slash, .semicolon] := by
  unfold punctuation? at h
  split at h <;> cases h <;> decide

/-- The code points of letters. -/
theorem toNat_of_isAlpha {c : Char} (h : c.isAlpha) :
    65 ≤ c.toNat ∧ c.toNat ≤ 90 ∨ 97 ≤ c.toNat ∧ c.toNat ≤ 122 := by
  change (decide ('A'.val ≤ c.val ∧ c.val ≤ 'Z'.val) ||
    decide ('a'.val ≤ c.val) && decide (c.val ≤ 'z'.val)) = true at h
  simp only [Bool.or_eq_true, Bool.and_eq_true, decide_eq_true_eq, UInt32.le_iff_toNat_le] at h
  exact h

/-- What begins a word is no digit and no minus sign. -/
theorem class_of_isWordStart {c : Char} (h : isWordStart c) : c.isDigit = false ∧ c ≠ '-' := by
  refine ⟨?_, ?_⟩
  · rw [Bool.eq_false_iff]
    intro hd
    rw [isWordStart, Bool.or_eq_true, beq_iff_eq] at h
    rcases h with rfl | h
    · exact absurd hd (by decide)
    · have hletter := toNat_of_isAlpha h
      have hdigit : c.toNat ≤ 57 := (Char.isDigit_iff_toNat.mp hd).2
      omega
  · rintro rfl
    exact absurd h (by decide)

/-- An infinity is two letters with no character of a word behind them. -/
theorem startsInfinity_iff {cs : List Char} :
    startsInfinity cs ↔ ∃ rest, cs = 'o' :: 'o' :: rest ∧ rest.head?.any isWordChar = false := by
  unfold startsInfinity
  split
  · simp
  · rename_i hno
    simp only [Bool.false_eq_true, false_iff, not_exists, not_and]
    rintro rest rfl
    exact absurd rfl (hno rest)

/-- An infinity does not begin with a digit. -/
theorem not_digit_of_startsInfinity {cs : List Char} (h : startsInfinity cs) :
    cs.head?.any Char.isDigit = false := by
  obtain ⟨rest, rfl, -⟩ := startsInfinity_iff.mp h
  rfl

/-- **The lexer follows the rules.** -/
theorem munch_rule (c : Char) (cs : List Char) : Rule c cs (munch c cs).1 (munch c cs).2 := by
  by_cases hmark : isMark c
  · simp only [isMark, Bool.or_eq_true, decide_eq_true_eq] at hmark
    rcases hmark with ((rfl | rfl) | rfl) | hp
    · exact .comment rfl
    · exact .name rfl
    · exact .literal rfl
    · obtain ⟨kind, hp⟩ := Option.isSome_iff_exists.mp hp
      have hmunch : munch c cs = (kind, 0) := by
        unfold punctuation? at hp
        split at hp <;> cases hp <;> rfl
      rw [hmunch]
      exact .punctuation hp
  have hmark : isMark c = false := by simpa using hmark
  rw [munch_of_not_isMark hmark]
  by_cases hdigit : c.isDigit
  · rw [if_pos hdigit]
    exact .digits hdigit
  rw [if_neg hdigit]
  by_cases hneg : c = '-' ∧ cs.head?.any Char.isDigit
  · rw [if_pos hneg]
    exact .negative hneg.1 hneg.2
  rw [if_neg hneg]
  by_cases hinf : c = '-' ∧ startsInfinity cs
  · rw [if_pos hinf]
    exact .negativeInfinity hinf.1 hinf.2
  rw [if_neg hinf]
  by_cases hword : isWordStart c
  · rw [if_pos hword]
    by_cases hoo : c :: cs.take (run isWordChar cs) = ['o', 'o']
    · rw [if_pos hoo]
      exact .infinity hword hoo
    · rw [if_neg hoo]
      exact .word hword hoo
  rw [if_neg hword]
  have hc : isMark c = false ∧ c.isDigit = false ∧ isWordStart c = false := by simp_all
  cases ha : symbolicAlias? (c :: cs) with
  | some sign => exact .operator hc (fun hminus => by simp_all) ha
  | none => exact .unknown hc ha

/-- A minus sign always begins an alias. -/
theorem symbolicAlias?_minus (cs : List Char) : symbolicAlias? ('-' :: cs) = some "-" := by
  have hfilter : symbolicAliases.filter (·.toList.isPrefixOf ('-' :: cs)) = ["-"] := rfl
  rw [symbolicAlias?, hfilter]
  rfl

/-- **No two rules differ about a text.** What a rule takes is what the lexer takes. -/
theorem Rule.munch_eq {c : Char} {cs : List Char} {kind : Kind} {length : Nat}
    (h : Rule c cs kind length) : munch c cs = (kind, length) := by
  cases h with
  | comment hc =>
      subst hc
      rfl
  | name hc =>
      subst hc
      rfl
  | literal hc =>
      subst hc
      rfl
  | punctuation hc =>
      unfold punctuation? at hc
      split at hc <;> cases hc <;> rfl
  | digits hc => rw [munch_of_not_isMark (isMark_eq_false (.inl hc)), if_pos hc]
  | negative hc hd =>
      rw [munch_of_not_isMark (isMark_eq_false (.inr (.inr hc))), if_neg (by rw [hc]; decide),
        if_pos ⟨hc, hd⟩]
  | negativeInfinity hc hoo =>
      rw [munch_of_not_isMark (isMark_eq_false (.inr (.inr hc))), if_neg (by rw [hc]; decide),
        if_neg (by simp [not_digit_of_startsInfinity hoo]), if_pos ⟨hc, hoo⟩]
  | infinity hc hoo =>
      obtain ⟨hdigit, hminus⟩ := class_of_isWordStart hc
      rw [munch_of_not_isMark (isMark_eq_false (.inr (.inl hc)))]
      simp [hdigit, hminus, hc, hoo]
  | word hc hoo =>
      obtain ⟨hdigit, hminus⟩ := class_of_isWordStart hc
      rw [munch_of_not_isMark (isMark_eq_false (.inr (.inl hc)))]
      simp [hdigit, hminus, hc, hoo]
  | operator hc hneg ha =>
      obtain ⟨hmark, hdigit, hword⟩ := hc
      rw [munch_of_not_isMark hmark, ha]
      by_cases hminus : c = '-'
      · obtain ⟨hd, hoo⟩ := hneg hminus
        simp [hdigit, hword, hd, hoo]
      · simp [hdigit, hword, hminus]
  | unknown hc ha =>
      obtain ⟨hmark, hdigit, hword⟩ := hc
      have hminus : c ≠ '-' := by
        rintro rfl
        rw [symbolicAlias?_minus] at ha
        cases ha
      rw [munch_of_not_isMark hmark, ha]
      simp [hdigit, hword, hminus]

end GolfAssist.Token
