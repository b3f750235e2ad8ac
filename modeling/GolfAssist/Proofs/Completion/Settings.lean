import GolfAssist.Completion.Config
import Mathlib.Data.List.Basic
import Mathlib.Data.List.TakeWhile
import Mathlib.Tactic.IntervalCases

/-!
# The texts that give settings

* `Text.IsTrimmed` — a text without the blanks at its ends.
* `Completion.Config.Spells` — what the characters between the quotes of a JSON string spell.
* `Completion.Config.IsNumeral` — the literals of the natural numbers of 64 bits.
* `Completion.Config.Gives` — the texts that give a lookbehind, by their shapes.
* `Completion.Config.settings_read_exactly` — reading accepts exactly these texts, and gives their
  lookbehind.

The shapes are said as texts, with all parts and the gaps between them put together, and without a
word about where a reader stops. That a reader stops at the right place has one reason throughout:
no part begins with a character that could still belong to the part in front of it.
-/

namespace GolfAssist

/-! ## Trimmed texts -/

namespace Text

/-- The text without the blanks at its ends. -/
structure IsTrimmed (cs trimmed : List Char) : Prop where
  /-- Around it there are blanks and nothing else. -/
  middle : ∃ front back, cs = front ++ trimmed ++ back ∧ (∀ c ∈ front, isBlank c) ∧
    ∀ c ∈ back, isBlank c
  /-- It does not begin with one. -/
  head : ∀ c ∈ trimmed.head?, isBlank c = false
  /-- It does not end with one. -/
  last : ∀ c ∈ trimmed.getLast?, isBlank c = false

/-- Blanks in front are left out. -/
theorem trimLeft_append {front rest : List Char} (hfront : ∀ c ∈ front, isBlank c)
    (hrest : ∀ c ∈ rest.head?, isBlank c = false) : trimLeft (front ++ rest) = rest := by
  rw [trimLeft, List.dropWhile_append_of_pos hfront]
  cases rest with
  | nil => rfl
  | cons c rest => rw [List.dropWhile_cons_of_neg (by rw [hrest c rfl]; simp)]

/-- All that is left out in front are blanks. -/
theorem exists_blanks_trimLeft (cs : List Char) :
    ∃ front, cs = front ++ trimLeft cs ∧ ∀ c ∈ front, isBlank c :=
  ⟨cs.takeWhile isBlank, List.takeWhile_append_dropWhile.symm, fun _ => List.mem_takeWhile_imp⟩

/-- What is left behind a run does not begin with a character that could belong to it. -/
theorem not_of_mem_head?_dropWhile {p : Char → Bool} {cs : List Char} {c : Char}
    (h : c ∈ (cs.dropWhile p).head?) : p c = false := by
  have hhead := List.head?_dropWhile_not p cs
  rw [Option.mem_def.mp h] at hhead
  exact hhead

/-- **Trimming takes the blanks off both ends**, and nothing else. -/
theorem isTrimmed_iff {cs trimmed : List Char} : IsTrimmed cs trimmed ↔ trimmed = trim cs := by
  constructor
  · rintro ⟨⟨front, back, rfl, hfront, hback⟩, hhead, hlast⟩
    have hback' : ∀ c ∈ back.reverse, isBlank c := fun c hc => hback c (List.mem_reverse.mp hc)
    have hlast' : ∀ c ∈ trimmed.reverse.head?, isBlank c = false := by rwa [List.head?_reverse]
    by_cases hnil : trimmed = []
    · -- all is blank, so what is in front and what is behind cannot be told apart
      subst hnil
      have hall : ∀ c ∈ front ++ back, isBlank c := by
        intro c hc
        exact (List.mem_append.mp hc).elim (hfront c) (hback c)
      have hgone := @trimLeft_append _ [] hall (by simp)
      rw [List.append_nil] at hgone
      rw [List.append_nil, trim, hgone]
      rfl
    · have hmiddle : ∀ c ∈ (trimmed ++ back).head?, isBlank c = false := by
        rwa [List.head?_append_of_ne_nil _ hnil]
      rw [trim, List.append_assoc, trimLeft_append hfront hmiddle, List.reverse_append,
        trimLeft_append hback' hlast', List.reverse_reverse]
  · rintro rfl
    obtain ⟨front, hcs, hfront⟩ := exists_blanks_trimLeft cs
    obtain ⟨back, hback, hblank⟩ := exists_blanks_trimLeft (trimLeft cs).reverse
    have hmiddle : trimLeft cs = trim cs ++ back.reverse := by
      rw [trim, ← List.reverse_append, ← hback, List.reverse_reverse]
    have hblanks : ∀ c ∈ back.reverse, isBlank c := fun c hc =>
      hblank c (List.mem_reverse.mp hc)
    refine ⟨⟨front, back.reverse, ?_, hfront, hblanks⟩, ?_, ?_⟩
    · rw [List.append_assoc, ← hmiddle]
      exact hcs
    · intro c hc
      have hhead : c ∈ (trimLeft cs).head? := by
        rw [hmiddle]
        exact List.mem_head?_append_of_mem_head? hc
      exact not_of_mem_head?_dropWhile hhead
    · rw [trim, List.getLast?_reverse]
      exact fun c hc => not_of_mem_head?_dropWhile hc

end Text

namespace Completion.Config

/-! ## The shapes of settings -/

/-- The blanks of JSON, which may stand between the parts of a text. -/
def IsGap (cs : List Char) : Prop := ∀ c ∈ cs, c = ' ' ∨ c = '\t' ∨ c = '\n' ∨ c = '\r'

/-- The character is a hexadecimal digit, small or capital, with the given value. -/
def IsHexDigit (c : Char) (n : Nat) : Prop :=
  "0123456789abcdef".toList[n]? = some c ∨ "0123456789ABCDEF".toList[n]? = some c

instance (c : Char) (n : Nat) : Decidable (IsHexDigit c n) := inferInstanceAs (Decidable (_ ∨ _))

/-- The characters are four hexadecimal digits, and spell the given number. -/
def IsCodeUnit (cs : List Char) (n : Nat) : Prop :=
  ∃ a b c d w x y z, cs = [a, b, c, d] ∧ IsHexDigit a w ∧ IsHexDigit b x ∧ IsHexDigit c y ∧
    IsHexDigit d z ∧ ((w * 16 + x) * 16 + y) * 16 + z = n

/-- The letters that stand for a character when a backslash is in front of them. -/
def escapes : List (Char × Char) :=
  [('"', '"'), ('\\', '\\'), ('/', '/'), ('b', '\x08'), ('f', '\x0c'), ('n', '\n'), ('r', '\r'),
    ('t', '\t')]

/-- What the characters between the quotes of a JSON string spell. -/
inductive Spells : List Char → List Char → Prop where
  /-- Nothing. -/
  | nil : Spells [] []
  /-- A character that stands for itself. -/
  | plain {x : Char} {cs spelled : List Char} (hquote : x ≠ '"') (hslash : x ≠ '\\')
      (hcontrol : 0x20 ≤ x.toNat) (h : Spells cs spelled) : Spells (x :: cs) (x :: spelled)
  /-- A backslash and a letter. -/
  | escape {e x : Char} {cs spelled : List Char} (he : (e, x) ∈ escapes) (h : Spells cs spelled) :
      Spells ('\\' :: e :: cs) (x :: spelled)
  /-- The code point of a character. -/
  | codePoint {x : Char} {digits cs spelled : List Char} (hx : IsCodeUnit digits x.toNat)
      (h : Spells cs spelled) : Spells ('\\' :: 'u' :: digits ++ cs) (x :: spelled)
  /-- A character that needs two code units of 16 bits. -/
  | pair {x : Char} {high low : Nat} {digits digits' cs spelled : List Char}
      (hhigh : IsCodeUnit digits high) (hhigh' : 0xD800 ≤ high ∧ high < 0xDC00)
      (hlow : IsCodeUnit digits' low) (hlow' : 0xDC00 ≤ low ∧ low < 0xE000)
      (hx : x.toNat = 0x10000 + (high - 0xD800) * 0x400 + (low - 0xDC00)) (h : Spells cs spelled) :
      Spells ('\\' :: 'u' :: digits ++ '\\' :: 'u' :: digits' ++ cs) (x :: spelled)

/-- The characters are the literal of a natural number of at most 64 bits: zero, or digits of which
the first one is not zero. -/
structure IsNumeral (digits : List Char) (n : Nat) : Prop where
  /-- There are digits and nothing else: no sign, no fraction and no exponent. -/
  isDigit : ∀ c ∈ digits, c.isDigit
  /-- There is no zero in front. -/
  form : digits = ['0'] ∨ ∃ first rest, digits = first :: rest ∧ first ≠ '0'
  /-- They spell the number. -/
  value : Nat.ofDigitChars 10 digits 0 = n
  /-- The number is not too large. -/
  fits : n < 2 ^ 64

/-- The text gives the lookbehind. -/
inductive Gives : List Char → Nat → Prop where
  /-- Nothing at all gives the default. -/
  | nothing : Gives [] 250
  /-- So does an object without members. -/
  | noMember {gap : List Char} (h : IsGap gap) : Gives ('\x7b' :: gap ++ ['\x7d']) 250
  /-- So does an array without elements. -/
  | noElement {gap : List Char} (h : IsGap gap) : Gives ('[' :: gap ++ [']']) 250
  /-- An object with one member, whose key spells the name of the setting and whose value is a
  numeral. -/
  | member {gap key gap₁ gap₂ digits gap₃ : List Char} {n : Nat} (h : IsGap gap)
      (hkey : Spells key "lookbehind".toList) (h₁ : IsGap gap₁) (h₂ : IsGap gap₂)
      (hn : IsNumeral digits n) (h₃ : IsGap gap₃) :
      Gives
        ('\x7b' :: gap ++ '"' :: key ++ '"' :: gap₁ ++ ':' :: gap₂ ++ digits ++ gap₃ ++ ['\x7d'])
        n
  /-- An array with one element, which is a numeral. -/
  | element {gap digits gap₁ : List Char} {n : Nat} (h : IsGap gap) (hn : IsNumeral digits n)
      (h₁ : IsGap gap₁) : Gives ('[' :: gap ++ digits ++ gap₁ ++ [']']) n

/-! ## Gaps -/

/-- The blanks of JSON are those that a reader skips. -/
theorem isGap_iff {gap : List Char} : IsGap gap ↔ ∀ c ∈ gap, isGap c := by
  simp only [IsGap, isGap, Bool.or_eq_true, decide_eq_true_eq, or_assoc]

/-- What comes behind a gap is found by skipping it. -/
theorem skipGap_eq_cons_iff {cs rest : List Char} {c : Char} (hc : isGap c = false) :
    skipGap cs = c :: rest ↔ ∃ gap, IsGap gap ∧ cs = gap ++ c :: rest := by
  constructor
  · intro h
    refine ⟨cs.takeWhile isGap, isGap_iff.mpr fun _ => List.mem_takeWhile_imp, ?_⟩
    rw [← h]
    exact List.takeWhile_append_dropWhile.symm
  · rintro ⟨gap, hgap, rfl⟩
    rw [skipGap, List.dropWhile_append_of_pos (isGap_iff.mp hgap),
      List.dropWhile_cons_of_neg (by simp [hc])]

/-! ## Keys -/

/-- The ranges of code points in which the hexadecimal digits are. -/
theorem isHexDigit_ofNat {k : Nat} :
    (48 ≤ k ∧ k ≤ 57 → IsHexDigit (Char.ofNat k) (k - 48)) ∧
      (97 ≤ k ∧ k ≤ 102 → IsHexDigit (Char.ofNat k) (k - 97 + 10)) ∧
      (65 ≤ k ∧ k ≤ 70 → IsHexDigit (Char.ofNat k) (k - 65 + 10)) := by
  refine ⟨?_, ?_, ?_⟩ <;> rintro ⟨hlow, hhigh⟩ <;> interval_cases k <;> decide

/-- A reader knows the hexadecimal digits. -/
theorem hexDigit?_eq_some_iff {c : Char} {n : Nat} : hexDigit? c = some n ↔ IsHexDigit c n := by
  constructor
  · intro h
    obtain ⟨hdigits, hsmalls, hcapitals⟩ := @isHexDigit_ofNat c.toNat
    rw [Char.ofNat_toNat] at hdigits hsmalls hcapitals
    unfold hexDigit? at h
    split_ifs at h with hdigit hsmall hcapital <;> obtain rfl := Option.some.inj h
    · exact hdigits (Char.isDigit_iff_toNat.mp hdigit)
    · exact hsmalls hsmall
    · exact hcapitals hcapital
  · intro h
    have hlt : n < 16 := by rcases h with h | h <;> exact (List.getElem?_eq_some_iff.mp h).1
    interval_cases n <;> rcases h with h | h <;> obtain rfl := Option.some.inj h <;> decide

/-- A number names the character with that code point, if there is one. -/
theorem ofNatAux_eq_some_iff {n : Nat} {x : Char} :
    (if h : n.isValidChar then some (Char.ofNatAux n h) else none) = some x ↔ x.toNat = n := by
  constructor
  · intro h
    by_cases hvalid : n.isValidChar
    · rw [dif_pos hvalid] at h
      obtain rfl := Option.some.inj h
      rfl
    · rw [dif_neg hvalid] at h
      cases h
  · rintro rfl
    rw [dif_pos (show x.toNat.isValidChar from x.valid)]
    exact congrArg some (Char.toNat_inj.mp rfl)

/-- Four hexadecimal digits name the character with that code point. -/
theorem codePoint?_eq_some_iff {a b c d x : Char} :
    codePoint? a b c d = some x ↔ IsCodeUnit [a, b, c, d] x.toNat := by
  constructor
  · intro h
    obtain ⟨w, hw, h⟩ := Option.bind_eq_some_iff.mp h
    obtain ⟨x', hx, h⟩ := Option.bind_eq_some_iff.mp h
    obtain ⟨y, hy, h⟩ := Option.bind_eq_some_iff.mp h
    obtain ⟨z, hz, h⟩ := Option.bind_eq_some_iff.mp h
    rw [hexDigit?_eq_some_iff] at hw hx hy hz
    exact ⟨a, b, c, d, w, x', y, z, rfl, hw, hx, hy, hz, (ofNatAux_eq_some_iff.mp h).symm⟩
  · rintro ⟨_, _, _, _, w, x', y, z, ⟨⟩, hw, hx, hy, hz, h⟩
    rw [← hexDigit?_eq_some_iff] at hw hx hy hz
    refine Option.bind_eq_some_iff.mpr ⟨w, hw, Option.bind_eq_some_iff.mpr ⟨x', hx, ?_⟩⟩
    refine Option.bind_eq_some_iff.mpr ⟨y, hy, Option.bind_eq_some_iff.mpr ⟨z, hz, ?_⟩⟩
    exact ofNatAux_eq_some_iff.mpr h.symm

/-- A reader knows the letters behind a backslash. -/
theorem escape?_eq_some_iff {e x : Char} : escape? e = some x ↔ (e, x) ∈ escapes := by
  constructor
  · intro h
    unfold escape? at h
    split at h <;> first | cases h; decide | cases h
  · intro h
    simp only [escapes, List.mem_cons, List.not_mem_nil, or_false, Prod.mk.injEq] at h
    rcases h with ⟨rfl, rfl⟩ | ⟨rfl, rfl⟩ | ⟨rfl, rfl⟩ | ⟨rfl, rfl⟩ | ⟨rfl, rfl⟩ | ⟨rfl, rfl⟩ |
      ⟨rfl, rfl⟩ | ⟨rfl, rfl⟩ <;> rfl

/-- What a reader takes for a key is a string that spells it. -/
theorem exists_spells_of_key? {cs spelled rest : List Char} (h : key? cs = some (spelled, rest)) :
    ∃ key, cs = key ++ '"' :: rest ∧ Spells key spelled := by
  fun_induction key? cs generalizing spelled rest with
  | case1 => cases h
  | case2 cs =>
      cases h
      exact ⟨[], rfl, .nil⟩
  | case3 a b c d cs ih =>
      simp only [Option.bind_eq_bind, Option.bind_eq_some_iff, Prod.exists] at h
      obtain ⟨x, hx, spelled, rest, hkey, ⟨⟩⟩ := h
      obtain ⟨key, rfl, hspells⟩ := ih hkey
      exact ⟨'\\' :: 'u' :: [a, b, c, d] ++ key, rfl,
        .codePoint (codePoint?_eq_some_iff.mp hx) hspells⟩
  | case4 e cs _ ih =>
      simp only [Option.bind_eq_bind, Option.bind_eq_some_iff, Prod.exists] at h
      obtain ⟨x, hx, spelled, rest, hkey, ⟨⟩⟩ := h
      obtain ⟨key, rfl, hspells⟩ := ih hkey
      exact ⟨'\\' :: e :: key, rfl, .escape (escape?_eq_some_iff.mp hx) hspells⟩
  | case5 => cases h
  | case6 x cs hquote _ _ hplain ih =>
      simp only [Option.bind_eq_bind, Option.bind_eq_some_iff, Prod.exists] at h
      obtain ⟨spelled, rest, hkey, ⟨⟩⟩ := h
      obtain ⟨key, rfl, hspells⟩ := ih hkey
      obtain ⟨hslash, hcontrol⟩ := not_or.mp hplain
      exact ⟨x :: key, rfl, .plain hquote hslash (Nat.le_of_not_lt hcontrol) hspells⟩

/-- A string that spells a key is taken for it, if all of its characters have code points of 16
bits. -/
theorem key?_of_spells {key spelled : List Char} (h : Spells key spelled)
    (hbits : ∀ x ∈ spelled, x.toNat < 0x10000) (rest : List Char) :
    key? (key ++ '"' :: rest) = some (spelled, rest) := by
  induction h with
  | nil => rfl
  | @plain x cs spelled hquote hslash hcontrol _ ih =>
      have hplain : ¬ (x = '\\' ∨ x.toNat < 0x20) := by
        rw [not_or]
        exact ⟨hslash, Nat.not_lt.mpr hcontrol⟩
      rw [List.cons_append, key?, if_neg hplain, ih (List.forall_mem_cons.mp hbits).2]
      · rfl
      · exact hquote
      · exact fun _ _ _ _ _ h => absurd h hslash
      · exact fun _ _ h => absurd h hslash
  | @escape e x cs spelled he _ ih =>
      have hletter : e ≠ 'u' := by
        rintro rfl
        cases escape?_eq_some_iff.mpr he
      rw [List.cons_append, List.cons_append, key?, escape?_eq_some_iff.mpr he,
        ih (List.forall_mem_cons.mp hbits).2]
      · rfl
      · exact fun _ _ _ _ _ h => absurd h hletter
  | @codePoint x digits cs spelled hx _ ih =>
      obtain ⟨a, b, c, d, w, x', y, z, rfl, hdigits⟩ := id hx
      show key? ('\\' :: 'u' :: a :: b :: c :: d :: (cs ++ '"' :: rest)) = _
      rw [key?, codePoint?_eq_some_iff.mpr hx, ih (List.forall_mem_cons.mp hbits).2]
      rfl
  | pair _ _ _ _ hx _ _ =>
      -- such a character has no code point of 16 bits
      have hlt := (List.forall_mem_cons.mp hbits).1
      omega

/-! ## Numerals -/

/-- A literal has digits. -/
theorem IsNumeral.exists_cons {digits : List Char} {n : Nat} (h : IsNumeral digits n) :
    ∃ first rest, digits = first :: rest ∧ first.isDigit := by
  have hdigit := h.isDigit
  rcases h.form with rfl | ⟨first, rest, rfl, -⟩
  · exact ⟨'0', [], rfl, rfl⟩
  · exact ⟨first, rest, rfl, hdigit first List.mem_cons_self⟩

/-- Digits are no blanks. -/
theorem isGap_of_isDigit {c : Char} (h : c.isDigit) : isGap c = false := by
  rw [Bool.eq_false_iff]
  intro hgap
  simp only [isGap, Bool.or_eq_true, decide_eq_true_eq] at hgap
  rcases hgap with ((rfl | rfl) | rfl) | rfl <;> cases h

/-- Digits are a literal if there are some, and if a zero in front is the only one. -/
theorem isNumeral_iff {digits : List Char} {n : Nat} :
    IsNumeral digits n ↔ (∀ c ∈ digits, c.isDigit) ∧ ofDigits digits = n ∧
      digits ≠ [] ∧ (digits.head? = some '0' → digits = ['0']) ∧ n < UInt64.size := by
  have hvalue : Nat.ofDigitChars 10 digits 0 = ofDigits digits := Nat.ofDigitChars_eq_foldl
  constructor
  · rintro ⟨hdigit, hform, rfl, hfits⟩
    refine ⟨hdigit, hvalue.symm, ?_, ?_, hfits⟩
    · rcases hform with rfl | ⟨first, rest, rfl, -⟩ <;> simp
    · rcases hform with rfl | ⟨first, rest, rfl, hfirst⟩
      · exact fun _ => rfl
      · intro hzero
        exact absurd (Option.some.inj hzero) hfirst
  · rintro ⟨hdigit, rfl, hnil, hzero, hfits⟩
    refine ⟨hdigit, ?_, hvalue, hfits⟩
    obtain ⟨first, rest, rfl⟩ := List.exists_cons_of_ne_nil hnil
    by_cases hfirst : first = '0'
    · exact .inl (hzero (by rw [hfirst]; rfl))
    · exact .inr ⟨first, rest, rfl, hfirst⟩

/-- **A number is read where a literal stands**, as far as its digits go. -/
theorem number?_eq_some_iff {cs rest : List Char} {n : Nat} :
    number? cs = some (n, rest) ↔
      ∃ digits, cs = digits ++ rest ∧ IsNumeral digits n ∧ ∀ c ∈ rest.head?, c.isDigit = false := by
  constructor
  · intro h
    unfold number? at h
    dsimp only at h
    split at h
    next hnumeral =>
      obtain ⟨rfl, rfl⟩ := Prod.mk.inj (Option.some.inj h)
      refine ⟨_, List.takeWhile_append_dropWhile.symm,
        isNumeral_iff.mpr ⟨fun _ => List.mem_takeWhile_imp, rfl, hnumeral⟩, fun c hc => ?_⟩
      exact Text.not_of_mem_head?_dropWhile hc
    next => cases h
  · rintro ⟨digits, rfl, hnumeral, hrest⟩
    obtain ⟨hdigit, rfl, hform⟩ := isNumeral_iff.mp hnumeral
    have hstop : rest.takeWhile Char.isDigit = [] ∧ rest.dropWhile Char.isDigit = rest := by
      cases rest with
      | nil => exact ⟨rfl, rfl⟩
      | cons c rest => simp [hrest c rfl]
    unfold number?
    dsimp only
    rw [List.takeWhile_append_of_pos hdigit, List.dropWhile_append_of_pos hdigit, hstop.1, hstop.2,
      List.append_nil, if_pos hform]

/-! ## Settings -/

/-- A literal and a bracket behind it, with gaps around the literal. -/
theorem numberThen?_eq_some_iff {bracket : Char} {cs : List Char} {config : Config}
    (hgap : isGap bracket = false) (hdigit : bracket.isDigit = false) :
    numberThen? bracket cs = some config ↔
      ∃ gap digits gap₁, IsGap gap ∧ IsNumeral digits config.lookbehind ∧ IsGap gap₁ ∧
        cs = gap ++ digits ++ gap₁ ++ [bracket] := by
  simp only [numberThen?, Option.bind_eq_bind, Option.bind_eq_some_iff, Prod.exists,
    number?_eq_some_iff]
  constructor
  · rintro ⟨n, rest, ⟨digits, hskip, hnumeral, -⟩, h⟩
    split at h
    next hrest =>
      obtain rfl := Option.some.inj h
      obtain ⟨first, others, rfl, hfirst⟩ := hnumeral.exists_cons
      obtain ⟨gap, h₀, rfl⟩ := (skipGap_eq_cons_iff (isGap_of_isDigit hfirst)).mp hskip
      obtain ⟨gap₁, h₁, rfl⟩ := (skipGap_eq_cons_iff hgap).mp hrest
      exact ⟨gap, first :: others, gap₁, h₀, hnumeral, h₁, by simp⟩
    next => cases h
  · rintro ⟨gap, digits, gap₁, h₀, hnumeral, h₁, rfl⟩
    refine ⟨config.lookbehind, gap₁ ++ [bracket], ⟨digits, ?_, hnumeral, ?_⟩, ?_⟩
    · obtain ⟨first, others, rfl, hfirst⟩ := hnumeral.exists_cons
      rw [List.cons_append]
      exact (skipGap_eq_cons_iff (isGap_of_isDigit hfirst)).mpr ⟨gap, h₀, by simp⟩
    · -- the digits end with the gap, or with the bracket
      intro c hc
      cases gap₁ with
      | nil =>
          obtain rfl := Option.some.inj hc
          exact hdigit
      | cons d gap₁ =>
          obtain rfl := Option.some.inj hc
          rw [Bool.eq_false_iff]
          intro hd
          have hd' := isGap_iff.mp h₁ d List.mem_cons_self
          rw [isGap_of_isDigit hd] at hd'
          cases hd'
    · rw [if_pos ((skipGap_eq_cons_iff hgap).mpr ⟨gap₁, h₁, rfl⟩)]

/-- The settings are the defaults if the lookbehind is the default one. -/
theorem eq_default_iff {config : Config} : default = config ↔ config.lookbehind = 250 := by
  obtain ⟨n⟩ := config
  rw [default, mk.injEq, eq_comm]

/-- Nothing gives the default and nothing else. -/
theorem gives_nil_iff {n : Nat} : Gives [] n ↔ n = 250 := by
  constructor
  · generalize htext : ([] : List Char) = text
    intro h
    cases h with
    | nothing => rfl
    | noMember => cases htext
    | noElement => cases htext
    | member => cases htext
    | element => cases htext
  · rintro rfl
    exact .nothing

/-- The texts that begin with a brace and give a lookbehind. -/
theorem gives_object_iff {cs : List Char} {n : Nat} :
    Gives ('\x7b' :: cs) n ↔ (n = 250 ∧ ∃ gap, IsGap gap ∧ cs = gap ++ ['\x7d']) ∨
      ∃ gap key gap₁ value, IsGap gap ∧ Spells key "lookbehind".toList ∧ IsGap gap₁ ∧
        cs = gap ++ '"' :: (key ++ '"' :: (gap₁ ++ ':' :: value)) ∧
        ∃ gap₂ digits gap₃, IsGap gap₂ ∧ IsNumeral digits n ∧ IsGap gap₃ ∧
          value = gap₂ ++ digits ++ gap₃ ++ ['\x7d'] := by
  constructor
  · generalize htext : '\x7b' :: cs = text
    intro h
    cases h with
    | nothing => cases htext
    | @noMember gap h => exact .inl ⟨rfl, gap, h, (List.cons.inj htext).2⟩
    | noElement => cases (List.cons.inj htext).1
    | @member gap key gap₁ gap₂ digits gap₃ _ h hkey h₁ h₂ hn h₃ =>
        refine .inr ⟨gap, key, gap₁, _, h, hkey, h₁, ?_, gap₂, digits, gap₃, h₂, hn, h₃, rfl⟩
        rw [(List.cons.inj htext).2]
        simp
    | element => cases (List.cons.inj htext).1
  · rintro (⟨rfl, gap, h, rfl⟩ | ⟨gap, key, gap₁, _, h, hkey, h₁, rfl, gap₂, digits, gap₃, h₂, hn,
      h₃, rfl⟩)
    · exact .noMember h
    · simpa using Gives.member h hkey h₁ h₂ hn h₃

/-- The texts that begin with a bracket and give a lookbehind. -/
theorem gives_array_iff {cs : List Char} {n : Nat} :
    Gives ('[' :: cs) n ↔ (n = 250 ∧ ∃ gap, IsGap gap ∧ cs = gap ++ [']']) ∨
      ∃ gap digits gap₁, IsGap gap ∧ IsNumeral digits n ∧ IsGap gap₁ ∧
        cs = gap ++ digits ++ gap₁ ++ [']'] := by
  constructor
  · generalize htext : '[' :: cs = text
    intro h
    cases h with
    | nothing => cases htext
    | noMember => cases (List.cons.inj htext).1
    | @noElement gap h => exact .inl ⟨rfl, gap, h, (List.cons.inj htext).2⟩
    | member => cases (List.cons.inj htext).1
    | @element gap digits gap₁ _ h hn h₁ =>
        exact .inr ⟨gap, digits, gap₁, h, hn, h₁, (List.cons.inj htext).2⟩
  · rintro (⟨rfl, gap, h, rfl⟩ | ⟨gap, digits, gap₁, h, hn, h₁, rfl⟩)
    · exact .noElement h
    · exact .element h hn h₁

/-- The first member of an object has to be the only one, and its key has to be known. -/
theorem object?_of_member {cs body spelled rest value : List Char}
    (hquote : skipGap cs = '"' :: body) (hkey : key? body = some (spelled, rest))
    (hcolon : skipGap rest = ':' :: value) :
    object? cs = if spelled = "lookbehind".toList then numberThen? '\x7d' value else none := by
  rw [object?, hquote]
  show (key? body).bind _ = _
  rw [hkey, Option.bind_some]
  dsimp only
  rw [hcolon]
  rfl

/-- An object is read if it has no member, or one that gives the lookbehind. -/
theorem object?_eq_some_iff {cs : List Char} {config : Config} :
    object? cs = some config ↔ Gives ('\x7b' :: cs) config.lookbehind := by
  rw [gives_object_iff]
  constructor
  · intro h
    unfold object? at h
    split at h
    next hskip =>
      exact .inl ⟨eq_default_iff.mp (Option.some.inj h), (skipGap_eq_cons_iff (by decide)).mp hskip⟩
    next body hskip =>
      simp only [Option.bind_eq_bind, Option.bind_eq_some_iff, Prod.exists] at h
      obtain ⟨spelled, rest, hkey, h⟩ := h
      split at h
      next value hcolon =>
        split at h
        next hname =>
          subst hname
          obtain ⟨gap, h₀, rfl⟩ := (skipGap_eq_cons_iff (by decide)).mp hskip
          obtain ⟨key, rfl, hspells⟩ := exists_spells_of_key? hkey
          obtain ⟨gap₁, h₁, rfl⟩ := (skipGap_eq_cons_iff (by decide)).mp hcolon
          exact .inr ⟨gap, key, gap₁, value, h₀, hspells, h₁, rfl,
            (numberThen?_eq_some_iff (by decide) (by decide)).mp h⟩
        next => cases h
      next => cases h
    next => cases h
  · rintro (⟨hdefault, hgap⟩ | ⟨gap, key, gap₁, value, h₀, hspells, h₁, rfl, hvalue⟩)
    · rw [object?, (skipGap_eq_cons_iff (by decide)).mpr hgap]
      exact congrArg some (eq_default_iff.mpr hdefault)
    · have hbits : ∀ x ∈ "lookbehind".toList, x.toNat < 0x10000 := by simp
      have hkey := key?_of_spells hspells hbits (gap₁ ++ ':' :: value)
      have hcolon : skipGap (gap₁ ++ ':' :: value) = ':' :: value :=
        (skipGap_eq_cons_iff (by decide)).mpr ⟨gap₁, h₁, rfl⟩
      have hquote : skipGap (gap ++ '"' :: (key ++ '"' :: (gap₁ ++ ':' :: value))) = _ :=
        (skipGap_eq_cons_iff (c := '"') (by decide)).mpr ⟨gap, h₀, rfl⟩
      rw [object?_of_member hquote hkey hcolon, if_pos rfl]
      exact (numberThen?_eq_some_iff (by decide) (by decide)).mpr hvalue

/-- An array is read if it has no element, or one that gives the lookbehind. -/
theorem array?_eq_some_iff {cs : List Char} {config : Config} :
    array? cs = some config ↔ Gives ('[' :: cs) config.lookbehind := by
  have hempty : skipGap cs = [']'] ↔ ∃ gap, IsGap gap ∧ cs = gap ++ [']'] :=
    skipGap_eq_cons_iff (by decide)
  rw [gives_array_iff, ← hempty, ← numberThen?_eq_some_iff (by decide) (by decide), array?]
  split
  next h =>
    have hnone : numberThen? ']' cs = none := by
      rw [numberThen?, h]
      rfl
    rw [Option.some.injEq, eq_default_iff, hnone, and_iff_left h]
    simp
  next h => simp [h]

/-- Settings are read from the texts that give them. -/
theorem parse?_eq_some_iff {text : String} {config : Config} :
    parse? text = some config ↔ Gives (Text.trim text.toList) config.lookbehind := by
  unfold parse?
  split
  next h => rw [h, Option.some.injEq, eq_default_iff, gives_nil_iff]
  next cs h => rw [h, object?_eq_some_iff]
  next cs h => rw [h, array?_eq_some_iff]
  next hnil hobject harray =>
    refine iff_of_false nofun fun hgives => ?_
    generalize Text.trim text.toList = trimmed at hgives hnil hobject harray
    generalize config.lookbehind = n at hgives
    cases hgives with
    | nothing => exact hnil rfl
    | noMember => exact hobject _ rfl
    | noElement => exact harray _ rfl
    | member => exact hobject _ rfl
    | element => exact harray _ rfl

/-- **Settings are read from exactly the texts that give them.** Blanks at the ends of a text do not
count. What is left gives the default lookbehind if it is nothing, an object without members or an
array without elements, and a lookbehind of its own if it is an object whose one member has the
name of the setting for its key and a numeral for its value, or an array whose one element is a
numeral. Every other text is refused as invalid. -/
theorem settings_read_exactly (text : String) :
    (∀ config, parse text = .ok config ↔
        ∃ trimmed, Text.IsTrimmed text.toList trimmed ∧ Gives trimmed config.lookbehind) ∧
      (parse text = .error .invalidConfig ↔
        ¬ ∃ trimmed n, Text.IsTrimmed text.toList trimmed ∧ Gives trimmed n) := by
  have hgives : ∀ n, (∃ trimmed, Text.IsTrimmed text.toList trimmed ∧ Gives trimmed n) ↔
      parse? text = some ⟨n⟩ := by
    intro n
    simp only [Text.isTrimmed_iff, exists_eq_left, parse?_eq_some_iff]
  constructor
  · intro config
    rw [hgives, parse]
    cases parse? text <;> simp
  · rw [exists_comm]
    simp only [hgives]
    rw [parse]
    cases h : parse? text with
    | none => simp
    | some config => simpa using ⟨config.lookbehind, rfl⟩

-- a key may be spelled with escapes, and a number of more than 64 bits is no numeral
example : parse "\u00a0\x7b\"look\\u0062ehind\" : 0\n\x7d" = .ok ⟨0⟩ ∧
    parse "[18446744073709551616]" = .error .invalidConfig := ⟨rfl, rfl⟩

end Completion.Config

end GolfAssist
