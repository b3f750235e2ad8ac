import GolfAssist.Proofs.Diagnostics
import GolfAssist.Proofs.Rendering

/-!
# How far a token reaches

* `Token.IsLongestPrefix` — the longest beginning of a text that has a property.
* `Token.FreeQuote` — a quote of a text that no backslash escapes.
* `Token.Stands` — which token stands at the front of a text, said for each sort by what the token
  looks like and by where it has to end; `Token.Lexeme` adds the characters that no sort is for.
* `Token.lex_maximal_munch` — every token of a source is the one that stands at its place, and what
  is wrong with tokens by themselves is reported token by token.

The rules of the lexer (`Token.Rule`) count characters. The descriptions here do not: they name the
longest text of a shape, and an unknown character is one at which nothing of any shape stands. So
none of them depends on the order in which the lexer tries its rules.
-/

namespace GolfAssist.Token

open Text Lexicon

/-! ## Longest beginnings -/

/-- `s` is the longest beginning of the text that has a property. -/
structure IsLongestPrefix (P : List Char → Prop) (cs s : List Char) : Prop where
  /-- It is a beginning of the text. -/
  isPrefix : s <+: cs
  /-- It has the property. -/
  holds : P s
  /-- No longer beginning has it. -/
  longest : ∀ s', s' <+: cs → P s' → s'.length ≤ s.length

/-- A character and the run behind it are the longest beginning of a shape, if they have the shape
and nothing of the shape leaves the class of the run. -/
theorem isLongestPrefix_run {P : List Char → Prop} {p : Char → Bool} {c : Char} {cs : List Char}
    (hholds : P (c :: cs.takeWhile p)) (hclass : ∀ s, P s → ∀ d ∈ s.tail, p d) :
    IsLongestPrefix P (c :: cs) (c :: cs.take (run p cs)) := by
  rw [take_run]
  refine ⟨List.cons_prefix_cons.mpr ⟨rfl, List.takeWhile_prefix p⟩, hholds, ?_⟩
  intro s hs hP
  cases s with
  | nil => exact Nat.zero_le _
  | cons d s =>
      obtain ⟨-, rest, rfl⟩ := List.cons_prefix_cons.mp hs
      have hs : ∀ e ∈ s, p e := hclass _ hP
      rw [List.takeWhile_append_of_pos hs, List.length_cons, List.length_cons, List.length_append]
      omega

/-! ## Literals -/

/-- A character directly behind the text is escaped: the backslashes at the end of the text, each of
which escapes the next one or is escaped, are odd in number. -/
def escapes (front : List Char) : Bool := (front.reverse.takeWhile (· = '\\')).length % 2 = 1

/-- A quote stands behind `front` in the text, and is not escaped. -/
def FreeQuote (cs front : List Char) : Prop := front ++ ['"'] <+: cs ∧ escapes front = false

/-- The first quote of the text that is not escaped stands behind `front`. -/
structure IsFirstQuote (cs front : List Char) : Prop where
  /-- It is a quote that is not escaped. -/
  free : FreeQuote cs front
  /-- No other one stands in front of it. -/
  first : ∀ other, FreeQuote cs other → front.length ≤ other.length

/-- What stands in front of a character that is no backslash escapes nothing behind it. -/
theorem escapes_append_cons {c : Char} (hc : c ≠ '\\') (a b : List Char) :
    escapes (a ++ c :: b) = escapes b := by
  have hstop : (c :: a.reverse).takeWhile (· = '\\') = [] :=
    List.takeWhile_cons_of_neg (by simpa using hc)
  unfold escapes
  rw [List.reverse_append, List.reverse_cons, List.append_assoc, List.singleton_append,
    List.takeWhile_append, hstop, List.append_nil]
  split
  · rename_i hlen
    rw [List.Sublist.eq_of_length (List.takeWhile_sublist _) hlen]
  · rfl

/-- A backslash and the character it escapes do not escape anything behind them. -/
theorem escapes_cons_cons (c : Char) (front : List Char) :
    escapes ('\\' :: c :: front) = escapes front := by
  by_cases hc : c = '\\'
  · subst hc
    unfold escapes
    rw [List.reverse_cons, List.reverse_cons, List.append_assoc, List.takeWhile_append]
    split
    · rename_i hlen
      rw [List.Sublist.eq_of_length (List.takeWhile_sublist _) hlen]
      simp
    · rfl
  · exact escapes_append_cons hc ['\\'] front

/-- A text without characters has no quote. -/
theorem not_freeQuote_nil (front : List Char) : ¬ FreeQuote [] front := by
  simp [FreeQuote]

/-- A backslash escapes whatever stands behind it, so a free quote stands further on. -/
theorem freeQuote_escape_iff {c : Char} {cs front : List Char} :
    FreeQuote ('\\' :: c :: cs) front ↔
      ∃ behind, front = '\\' :: c :: behind ∧ FreeQuote cs behind := by
  constructor
  · rintro ⟨hfirst, hfree⟩
    match front with
    | [] => simp [List.cons_prefix_cons] at hfirst
    | [d] =>
        obtain ⟨rfl, -⟩ := List.cons_prefix_cons.mp hfirst
        exact absurd hfree (by decide)
    | d :: e :: behind =>
        obtain ⟨rfl, hsecond⟩ := List.cons_prefix_cons.mp hfirst
        obtain ⟨rfl, hbehind⟩ := List.cons_prefix_cons.mp hsecond
        exact ⟨behind, rfl, hbehind, (escapes_cons_cons e behind).symm.trans hfree⟩
  · rintro ⟨behind, rfl, hfirst, hfree⟩
    refine ⟨?_, (escapes_cons_cons c behind).trans hfree⟩
    simpa [List.cons_prefix_cons] using hfirst

/-- Behind any other character, free quotes are those of the text without it. -/
theorem freeQuote_cons_iff {c : Char} {cs front : List Char} (hq : c ≠ '"') (hb : c ≠ '\\') :
    FreeQuote (c :: cs) front ↔ ∃ behind, front = c :: behind ∧ FreeQuote cs behind := by
  constructor
  · rintro ⟨hfirst, hfree⟩
    cases front with
    | nil =>
        obtain ⟨rfl, -⟩ := List.cons_prefix_cons.mp hfirst
        exact absurd rfl hq
    | cons d behind =>
        obtain ⟨rfl, hbehind⟩ := List.cons_prefix_cons.mp hfirst
        exact ⟨behind, rfl, hbehind, (escapes_append_cons hb [] behind).symm.trans hfree⟩
  · rintro ⟨behind, rfl, hfirst, hfree⟩
    refine ⟨?_, (escapes_append_cons hb [] behind).trans hfree⟩
    simpa [List.cons_prefix_cons] using hfirst

/-- If the free quotes of a text are those of another one moved by a first part, so is the first of
them. -/
theorem IsFirstQuote.move {cs ds front : List Char} (h : IsFirstQuote ds front) (part : List Char)
    (hmove : ∀ other, FreeQuote cs other ↔ ∃ behind, other = part ++ behind ∧ FreeQuote ds behind) :
    IsFirstQuote cs (part ++ front) := by
  refine ⟨(hmove _).mpr ⟨front, rfl, h.free⟩, ?_⟩
  intro other hother
  obtain ⟨behind, rfl, hbehind⟩ := (hmove other).mp hother
  rw [List.length_append, List.length_append]
  exact Nat.add_le_add_left (h.first behind hbehind) _

/-- A literal that is closed ends with the first quote that is not escaped. -/
theorem exists_isFirstQuote {cs : List Char} (h : closesLiteral cs) :
    ∃ front, IsFirstQuote cs front ∧ cs.take (literalLength cs) = front ++ ['"'] := by
  induction cs using literal_induct with
  | nil => cases h
  | quote cs =>
      refine ⟨[], ⟨⟨?_, rfl⟩, fun _ _ => Nat.zero_le _⟩, rfl⟩
      exact List.cons_prefix_cons.mpr ⟨rfl, List.nil_prefix⟩
  | backslash => cases h
  | escape c cs ih =>
      obtain ⟨front, hfirst, htake⟩ := ih h
      refine ⟨'\\' :: c :: front, hfirst.move ['\\', c] fun _ => freeQuote_escape_iff, ?_⟩
      rw [literalLength, List.take_succ_cons, List.take_succ_cons, htake]
      rfl
  | other c cs hq hb ih =>
      rw [closesLiteral_cons hq hb] at h
      obtain ⟨front, hfirst, htake⟩ := ih h
      refine ⟨c :: front, hfirst.move [c] fun _ => freeQuote_cons_iff hq hb, ?_⟩
      rw [literalLength_cons hq hb, List.take_succ_cons, htake]
      rfl

/-- A text that does not close a literal has no free quote, and all of it belongs to the literal. -/
theorem not_freeQuote_of_not_closesLiteral {cs : List Char} (h : closesLiteral cs = false) :
    (∀ front, ¬ FreeQuote cs front) ∧ literalLength cs = cs.length := by
  induction cs using literal_induct with
  | nil => exact ⟨not_freeQuote_nil, rfl⟩
  | quote => cases h
  | backslash =>
      refine ⟨?_, rfl⟩
      rintro (_ | ⟨d, front⟩) ⟨hfirst, -⟩
      · simp [List.cons_prefix_cons] at hfirst
      · simp [List.cons_prefix_cons] at hfirst
  | escape c cs ih =>
      obtain ⟨hnone, hlength⟩ := ih h
      refine ⟨?_, by simp [literalLength, hlength]⟩
      intro front hfront
      obtain ⟨behind, -, hbehind⟩ := freeQuote_escape_iff.mp hfront
      exact hnone behind hbehind
  | other c cs hq hb ih =>
      rw [closesLiteral_cons hq hb] at h
      obtain ⟨hnone, hlength⟩ := ih h
      refine ⟨?_, by rw [literalLength_cons hq hb, hlength, List.length_cons]⟩
      intro front hfront
      obtain ⟨behind, -, hbehind⟩ := (freeQuote_cons_iff hq hb).mp hfront
      exact hnone behind hbehind

/-! ## Which token stands where -/

/-- The one character that a token of the sort is made of, if the sort is punctuation. -/
def Kind.sign? : Kind → Option Char
  | .openParen => some '('
  | .closeParen => some ')'
  | .openBrace => some '\x7b'
  | .closeBrace => some '\x7d'
  | .colon => some ':'
  | .slash => some '/'
  | .semicolon => some ';'
  | _ => none

/-- The text begins with the minus sign of a number: a digit follows, or an infinity that is no part
of a longer word. -/
def StartsNegative (r : List Char) : Prop :=
  (∃ d rest, r = '-' :: d :: rest ∧ d.isDigit) ∨
    ∃ rest, r = '-' :: 'o' :: 'o' :: rest ∧ rest.head?.any isWordChar = false

/-- At the front of the text `r` stands a token of a sort. -/
inductive Stands (r : List Char) : Kind → List Char → Prop where
  /-- A comment is its mark and the longest run behind it that has no line break. -/
  | comment {text : List Char}
      (h : IsLongestPrefix (fun s => ∃ run, s = '%' :: run ∧ '\n' ∉ run) r text) :
      Stands r .lineComment text
  /-- A variable is its sigil and the longest run of characters of words. -/
  | variable {text : List Char}
      (h : IsLongestPrefix (fun s => ∃ run, s = '$' :: run ∧ ∀ d ∈ run, isWordChar d) r text) :
      Stands r .variable text
  /-- A literal ends with the first quote behind the opening one that is not escaped. -/
  | literal {cs front : List Char} (hr : r = '"' :: cs) (h : IsFirstQuote cs front) :
      Stands r .string ('"' :: front ++ ['"'])
  /-- Where there is no such quote, a literal takes all there is. -/
  | openLiteral {cs : List Char} (hr : r = '"' :: cs) (h : ∀ front, ¬ FreeQuote cs front) :
      Stands r .string r
  /-- A number is the longest run of digits. -/
  | digits {text : List Char}
      (h : IsLongestPrefix (fun s => s ≠ [] ∧ ∀ d ∈ s, d.isDigit) r text) : Stands r .integer text
  /-- A number can have a minus sign directly in front of its digits. -/
  | negative {text : List Char}
      (h : IsLongestPrefix (fun s => ∃ run, s = '-' :: run ∧ run ≠ [] ∧ ∀ d ∈ run, d.isDigit)
        r text) :
      Stands r .integer text
  /-- An infinity, with or without a minus sign, is no part of a longer word. -/
  | infinity {text rest : List Char} (htext : text = ['o', 'o'] ∨ text = ['-', 'o', 'o'])
      (hr : r = text ++ rest) (hrest : rest.head?.any isWordChar = false) : Stands r .integer text
  /-- A word is what begins one and the longest run of characters of words, and is no infinity. -/
  | word {text : List Char}
      (h : IsLongestPrefix
        (fun s => ∃ d run, s = d :: run ∧ isWordStart d ∧ ∀ e ∈ run, isWordChar e) r text)
      (hoo : text ≠ ['o', 'o']) : Stands r .word text
  /-- An operator is the longest alias made of signs, where no negative number begins. -/
  | operator {text : List Char}
      (h : IsLongestPrefix
        (fun s => ∃ sign ∈ aliases, isWordLike sign = false ∧ s = sign.toList) r text)
      (hneg : ¬ StartsNegative r) : Stands r .op text
  /-- Punctuation is its one character. -/
  | punctuation {kind : Kind} {c : Char} {rest : List Char} (hr : r = c :: rest)
      (hk : kind.sign? = some c) : Stands r kind [c]

/-- At the front of the text `r` stands a token of a sort, or a character that is not blank and that
begins no token of any sort. -/
inductive Lexeme (r : List Char) : Kind → List Char → Prop where
  | known {kind : Kind} {text : List Char} (h : Stands r kind text) : Lexeme r kind text
  | unknown {c : Char} {rest : List Char} (hr : r = c :: rest) (hc : isBlank c = false)
      (h : ∀ kind text, ¬ Stands r kind text) : Lexeme r .unknown [c]

/-- Punctuation has the sort that its character says. -/
theorem sign?_of_punctuation? {c : Char} {kind : Kind} (h : punctuation? c = some kind) :
    kind.sign? = some c := by
  unfold punctuation? at h
  split at h <;> cases h <;> rfl

/-- A character that is a sort of punctuation is known as such. -/
theorem punctuation?_of_sign? {c : Char} {kind : Kind} (h : kind.sign? = some c) :
    punctuation? c = some kind := by
  unfold Kind.sign? at h
  split at h <;> cases h <;> rfl

/-- An alias is made of signs if it does not begin like a word. -/
theorem mem_symbolicAliases_iff {sign : String} :
    sign ∈ symbolicAliases ↔ sign ∈ aliases ∧ isWordLike sign = false := by
  rw [symbolicAliases, List.mem_filter, Bool.not_eq_true']

/-- No alias made of signs that a text begins with is longer than the one that is found. -/
theorem length_le_of_symbolicAlias? {cs : List Char} {sign other : String}
    (h : symbolicAlias? cs = some sign) (hother : other ∈ symbolicAliases)
    (hfirst : other.toList <+: cs) : other.length ≤ sign.length := by
  have hfold : ∀ (names : List String) (best : Option String),
      names.foldl (fun best name => some (best.elim name (longer · name))) best = some sign →
        (∀ name ∈ best, name.length ≤ sign.length) ∧ ∀ name ∈ names, name.length ≤ sign.length := by
    intro names
    induction names with
    | nil =>
        rintro best rfl
        exact ⟨by simp, by simp⟩
    | cons n names ih =>
        intro best hbest
        obtain ⟨hlonger, hnames⟩ := ih _ hbest
        have hle := hlonger _ rfl
        rcases best with _ | b
        · exact ⟨by simp, List.forall_mem_cons.mpr ⟨hle, hnames⟩⟩
        · rw [Option.elim_some] at hle
          unfold longer at hle
          split at hle
          · refine ⟨by simpa using hle, List.forall_mem_cons.mpr ⟨by omega, hnames⟩⟩
          · refine ⟨by simp; omega, List.forall_mem_cons.mpr ⟨hle, hnames⟩⟩
  refine (hfold _ _ h).2 other (List.mem_filter.mpr ⟨hother, ?_⟩)
  exact List.isPrefixOf_iff_prefix.mpr hfirst

/-- Behind a run stands no character of its class. -/
theorem head?_drop_run (p : Char → Bool) (cs : List Char) :
    (cs.drop (run p cs)).head?.any p = false := by
  have hdrop : cs.drop (run p cs) = cs.dropWhile p := by
    rw [← List.append_cancel_left_eq (cs.takeWhile p), List.takeWhile_append_dropWhile, ← take_run,
      List.take_append_drop]
  have hstop := List.head?_dropWhile_not p cs
  rw [hdrop]
  cases hhead : (cs.dropWhile p).head? with
  | none => rfl
  | some c =>
      rw [hhead] at hstop
      exact hstop

/-- Which texts begin with the minus sign of a number, in the terms of the lexer. -/
theorem startsNegative_cons_iff {c : Char} {cs : List Char} :
    StartsNegative (c :: cs) ↔ c = '-' ∧ (cs.head?.any Char.isDigit ∨ startsInfinity cs) := by
  constructor
  · rintro (⟨d, rest, h, hd⟩ | ⟨rest, h, hrest⟩)
    · obtain ⟨rfl, rfl⟩ := List.cons.inj h
      exact ⟨rfl, .inl hd⟩
    · obtain ⟨rfl, rfl⟩ := List.cons.inj h
      exact ⟨rfl, .inr (startsInfinity_iff.mpr ⟨rest, rfl, hrest⟩)⟩
  · rintro ⟨rfl, h | h⟩
    · cases cs with
      | nil => cases h
      | cons d rest => exact .inl ⟨d, rest, rfl, h⟩
    · obtain ⟨rest, rfl, hrest⟩ := startsInfinity_iff.mp h
      exact .inr ⟨rest, rfl, hrest⟩

/-- **What a rule takes, stands there.** -/
theorem Rule.stands {c : Char} {cs : List Char} {kind : Kind} {length : Nat}
    (h : Rule c cs kind length) (hk : kind ≠ .unknown) :
    Stands (c :: cs) kind (c :: cs.take length) := by
  have hrun : ∀ {p : Char → Bool}, ∀ d ∈ cs.takeWhile p, p d := fun d hd =>
    List.mem_takeWhile_imp hd
  cases h with
  | comment hc =>
      refine .comment (isLongestPrefix_run ⟨_, congrArg (· :: _) hc, ?_⟩ ?_)
      · intro hmem
        exact absurd (hrun _ hmem) (by simp)
      · rintro s ⟨more, rfl, hmore⟩ d hd
        rw [bne_iff_ne]
        rintro rfl
        exact hmore hd
  | name hc =>
      refine .variable (isLongestPrefix_run ⟨_, congrArg (· :: _) hc, hrun⟩ ?_)
      rintro s ⟨more, rfl, hmore⟩
      exact hmore
  | literal hc =>
      subst hc
      cases hclosed : closesLiteral cs with
      | true =>
          obtain ⟨front, hfirst, htake⟩ := exists_isFirstQuote hclosed
          rw [htake]
          exact .literal rfl hfirst
      | false =>
          obtain ⟨hnone, hlength⟩ := not_freeQuote_of_not_closesLiteral hclosed
          rw [hlength, List.take_length]
          exact .openLiteral rfl hnone
  | punctuation hc => exact .punctuation rfl (sign?_of_punctuation? hc)
  | digits hc =>
      refine .digits (isLongestPrefix_run ⟨List.cons_ne_nil _ _, ?_⟩ ?_)
      · exact List.forall_mem_cons.mpr ⟨hc, hrun⟩
      · rintro s ⟨-, hs⟩ d hd
        exact hs d (List.mem_of_mem_tail hd)
  | negative hc hd =>
      refine .negative (isLongestPrefix_run ⟨_, congrArg (· :: _) hc, ?_, hrun⟩ ?_)
      · cases cs with
        | nil => cases hd
        | cons d cs => simp [List.takeWhile_cons_of_pos (show d.isDigit from hd)]
      · rintro s ⟨more, rfl, -, hmore⟩
        exact hmore
  | negativeInfinity hc hoo =>
      obtain ⟨rest, rfl, hrest⟩ := startsInfinity_iff.mp hoo
      subst hc
      exact .infinity (.inr rfl) rfl hrest
  | infinity hc hoo =>
      refine .infinity (.inl hoo) ?_ (head?_drop_run isWordChar cs)
      rw [List.cons_append, List.take_append_drop]
  | word hc hoo =>
      refine .word (isLongestPrefix_run ⟨_, _, rfl, hc, hrun⟩ ?_) hoo
      rintro s ⟨d, more, rfl, -, hmore⟩
      exact hmore
  | @operator sign hc hneg ha =>
      obtain ⟨hmem, hfirst⟩ := mem_of_symbolicAlias? ha
      obtain ⟨halias, hsigns⟩ := mem_symbolicAliases_iff.mp hmem
      rw [cons_take_of_symbolicAlias? ha]
      refine .operator ⟨hfirst, ⟨sign, halias, hsigns, rfl⟩, ?_⟩ ?_
      · rintro s hs ⟨other, hother, hsigns, rfl⟩
        rw [String.length_toList, String.length_toList]
        exact length_le_of_symbolicAlias? ha (mem_symbolicAliases_iff.mpr ⟨hother, hsigns⟩) hs
      · rw [startsNegative_cons_iff]
        rintro ⟨hminus, hdigit | hoo⟩
        · exact absurd hdigit (by rw [(hneg hminus).1]; simp)
        · exact absurd hoo (by rw [(hneg hminus).2]; simp)
  | unknown => exact absurd rfl hk

/-- Where the lexer knows nothing, nothing stands. -/
theorem not_stands_of_unknown {c : Char} {cs : List Char} {length : Nat}
    (h : Rule c cs .unknown length) (kind : Kind) (text : List Char) :
    ¬ Stands (c :: cs) kind text := by
  obtain ⟨hmark, hdigit, hword, ha⟩ : isMark c = false ∧ c.isDigit = false ∧
      isWordStart c = false ∧ symbolicAlias? (c :: cs) = none := by
    cases h with
    | punctuation hc => exact absurd (kind_of_punctuation? hc) (by decide)
    | unknown hc ha => exact ⟨hc.1, hc.2.1, hc.2.2, ha⟩
  simp only [isMark, Bool.or_eq_false_iff, decide_eq_false_iff_not, Option.isSome_eq_false_iff,
    Option.isNone_iff_eq_none] at hmark
  obtain ⟨⟨⟨hcomment, hsigil⟩, hquote⟩, hp⟩ := hmark
  have hminus : c ≠ '-' := by
    rintro rfl
    rw [symbolicAlias?_minus] at ha
    cases ha
  have hhead : ∀ {d : Char} {run : List Char}, d :: run <+: c :: cs → c = d := fun hrun =>
    (List.cons_prefix_cons.mp hrun).1.symm
  rintro (h | h | ⟨h, -⟩ | ⟨h, -⟩ | h | h | ⟨htext, hr, -⟩ | ⟨h, -⟩ | ⟨h, -⟩ | ⟨h, hk⟩)
  · obtain ⟨hfirst, ⟨run, rfl, -⟩, -⟩ := h
    exact hcomment (hhead hfirst)
  · obtain ⟨hfirst, ⟨run, rfl, -⟩, -⟩ := h
    exact hsigil (hhead hfirst)
  · exact hquote (List.cons.inj h).1
  · exact hquote (List.cons.inj h).1
  · obtain ⟨hfirst, ⟨hne, hall⟩, -⟩ := h
    obtain ⟨d, run, rfl⟩ := List.exists_cons_of_ne_nil hne
    obtain rfl := hhead hfirst
    exact absurd (hall c List.mem_cons_self) (by simp [hdigit])
  · obtain ⟨hfirst, ⟨run, rfl, -⟩, -⟩ := h
    exact hminus (hhead hfirst)
  · rcases htext with rfl | rfl
    · obtain ⟨rfl, -⟩ := List.cons.inj hr
      exact absurd hword (by decide)
    · exact hminus (List.cons.inj hr).1
  · obtain ⟨hfirst, ⟨d, run, rfl, hd, -⟩, -⟩ := h
    obtain rfl := hhead hfirst
    exact absurd hd (by simp [hword])
  · obtain ⟨hfirst, ⟨sign, halias, hsigns, rfl⟩, -⟩ := h
    have hmem := mem_symbolicAliases_iff.mpr ⟨halias, hsigns⟩
    exact symbolicAlias?_eq_none_iff.mp ha sign hmem hfirst
  · obtain ⟨rfl, -⟩ := List.cons.inj h
    rw [punctuation?_of_sign? hk] at hp
    cases hp

/-! ## Sources -/

/-- The token has something wrong with it by itself: it is an unknown character, or a literal with
no quote that ends it. -/
def Faulty (t : Token) : Prop :=
  t.kind = .unknown ∨ t.kind = .string ∧ ∀ front, ¬ FreeQuote t.text.toList.tail front

/-- A literal is not closed if no quote behind the opening one is free. -/
theorem closesLiteral_eq_false_iff {cs : List Char} :
    closesLiteral cs = false ↔ ∀ front, ¬ FreeQuote cs front := by
  constructor
  · intro h
    exact (not_freeQuote_of_not_closesLiteral h).1
  · intro hnone
    rw [Bool.eq_false_iff]
    intro h
    obtain ⟨front, hfirst, -⟩ := exists_isFirstQuote h
    exact hnone front hfirst.free

instance (t : Token) : Decidable t.Faulty :=
  decidable_of_iff (t.kind = .unknown ∨ t.kind = .string ∧ closesLiteral t.text.toList.tail = false)
    (or_congr_right (and_congr_right' closesLiteral_eq_false_iff))

/-- A token has something wrong with it if it is faulty. -/
theorem ofToken?_eq_none_iff_not_faulty {t : Token} :
    Finding.ofToken? t = none ↔ ¬ t.Faulty := by
  rw [Document.ofToken?_eq_none_iff, Faulty, ← closesLiteral_eq_false_iff, not_or, not_and,
    Bool.not_eq_false]
  rfl

/-- What is wrong with a token is found at the token, and said in words that depend on its sort. -/
theorem diagnostic_of_ofToken? {t : Token} {f : Finding} (h : Finding.ofToken? t = some f) :
    f.diagnostic.span = t.span ∧
      (t.kind = .unknown → f.diagnostic.message = "unexpected char '" ++ t.text ++ "'") ∧
      (t.kind = .string → f.diagnostic.message = "unterminated string literal") := by
  refine ⟨Finding.span_of_ofToken? h, ?_, ?_⟩
  · intro hk
    rw [Finding.ofToken?, hk] at h
    cases h
    rfl
  · intro hk
    rw [Finding.ofToken?, hk] at h
    dsimp only at h
    split at h <;> cases h
    rfl

/-- Tokens are reported one by one, if they are faulty. -/
theorem forall₂_faulty (tokens : List Token) :
    List.Forall₂
      (fun t d => d.span = t.span ∧
        (t.kind = .unknown → d.message = "unexpected char '" ++ t.text ++ "'") ∧
        (t.kind = .string → d.message = "unterminated string literal"))
      (tokens.filter (·.Faulty)) ((tokens.filterMap Finding.ofToken?).map (·.diagnostic)) := by
  induction tokens with
  | nil => exact .nil
  | cons t tokens ih =>
      cases hfound : Finding.ofToken? t with
      | none =>
          have hsound := ofToken?_eq_none_iff_not_faulty.mp hfound
          rw [List.filter_cons_of_neg (by simpa using hsound), List.filterMap_cons_none hfound]
          exact ih
      | some f =>
          have hfaulty : t.Faulty := by
            by_contra hsound
            rw [ofToken?_eq_none_iff_not_faulty.mpr hsound] at hfound
            cases hfound
          rw [List.filter_cons_of_pos (by simpa using hfaulty), List.filterMap_cons_some hfound,
            List.map_cons]
          exact .cons (diagnostic_of_ofToken? hfound) ih

/-- **Every token reaches as far as it can.** At the place of each token of a source but the last
one stands, by the descriptions of the sorts, just this token. What is wrong with the tokens by
themselves is reported in order, once for each unknown character and once for each literal that no
quote ends, at the place of the token. -/
theorem lex_maximal_munch (source : String) :
    (∀ t ∈ lex source, t.kind ≠ .eof → ∃ front rest, source.toList = front ++ rest ∧
        byteLength front = t.start ∧ Lexeme rest t.kind t.text.toList) ∧
      List.Forall₂
        (fun t d => d.span = t.span ∧
          (t.kind = .unknown → d.message = "unexpected char '" ++ t.text ++ "'") ∧
          (t.kind = .string → d.message = "unterminated string literal"))
        ((lex source).filter (·.Faulty))
        ((Document.read source).lexicalFindings.map (·.diagnostic)) := by
  refine ⟨?_, forall₂_faulty (lex source)⟩
  intro t ht hk
  have hscan : t ∈ scan 0 0 source.toList := by
    rcases List.mem_append.mp ht with ht | ht
    · exact ht
    · obtain rfl := List.mem_singleton.mp ht
      exact absurd rfl hk
  obtain ⟨front, c, rest, hsource, hblank, rfl⟩ := exists_munch_of_mem_scan hscan
  have hrule := munch_rule c rest
  refine ⟨front, c :: rest, hsource, (Nat.zero_add _).symm, ?_⟩
  rw [String.toList_ofList]
  by_cases hunknown : (munch c rest).1 = .unknown
  · have hlength : (munch c rest).2 = 0 := by
      rw [hunknown] at hrule
      generalize (munch c rest).2 = length at hrule
      cases hrule with
      | punctuation hc => rfl
      | unknown hc ha => rfl
    rw [hunknown] at hrule
    rw [hunknown, hlength, List.take_zero]
    exact .unknown rfl hblank (not_stands_of_unknown hrule)
  · exact .known (hrule.stands hunknown)

/-- A minus sign in front of a word that only begins like an infinity is an operator. The quote that
seems to end the literal is escaped, so the literal is reported. -/
theorem lex_maximal_munch_junction :
    ⟨.op, 0, "-"⟩ ∈ lex "-oox\"a\\\"" ∧
      (∃ front rest, "-oox\"a\\\"".toList = front ++ rest ∧ byteLength front = 0 ∧
        Lexeme rest .op ['-']) ∧
      ∃ d, (Document.read "-oox\"a\\\"").lexicalFindings.map (·.diagnostic) = [d] ∧
        d.span = ⟨4, 8⟩ ∧ d.message = "unterminated string literal" := by
  have hlex : lex "-oox\"a\\\"" =
      [⟨.op, 0, "-"⟩, ⟨.word, 1, "oox"⟩, ⟨.string, 4, "\"a\\\""⟩, ⟨.eof, 8, ""⟩] := by
    decide +kernel
  have hfaulty : (lex "-oox\"a\\\"").filter (·.Faulty) = [⟨.string, 4, "\"a\\\""⟩] := by
    rw [hlex]
    decide +kernel
  obtain ⟨hstands, hreported⟩ := lex_maximal_munch "-oox\"a\\\""
  have hmem : ⟨.op, 0, "-"⟩ ∈ lex "-oox\"a\\\"" := by
    rw [hlex]
    decide
  rw [hfaulty] at hreported
  obtain ⟨d, others, hd, hnone, hone⟩ := List.forall₂_cons_left_iff.mp hreported
  obtain rfl := List.forall₂_nil_left_iff.mp hnone
  exact ⟨hmem, hstands _ hmem (by decide), d, hone, hd.1, hd.2.2 rfl⟩

end GolfAssist.Token
