import GolfAssist.Diagnostic
import GolfAssist.Proofs.Token.Break

/-!
# Lexing by byte positions

* `Token.rest?` — the text behind a byte position. There is none if the position falls inside a
  character or behind the end.
* `Token.eatWhile?`, `Token.literalEnd?`, `Token.isInfinity?` — what moves the position, and what
  looks ahead of it.
* `Token.branch?`, `Token.lexFrom?` — one turn of the lexer, and all its turns.
* `Token.lexFrom?_eq_lex` — the lexer by positions never asks for the text behind a position that is
  not between two characters, and gives the tokens of `Token.lex` and what is wrong with them.

A rule counts the characters that belong to a token, and where the token ends follows from the text.
Here the position is all that is kept, and it grows by numbers of bytes: that of a character, or a
fixed number where the character is known. Nothing in the definitions says that it stays between two
characters. The lemmas say it of one step after the other, in the form that the text is cut at the
position: `front` is behind the lexer, and what follows is still to be read.
-/

namespace GolfAssist.Token

open Text Lexicon

/-! ## Steps -/

/-- The text behind a byte position. -/
def rest? (input : List Char) (pos : Nat) : Option (List Char) := (splitAt? pos input).map (·.2)

/-- Where there is a character, its bytes are part of the text. -/
theorem add_le_of_rest? {input cs : List Char} {pos : Nat} {c : Char}
    (h : rest? input pos = some (c :: cs)) : pos + c.utf8Size ≤ byteLength input := by
  obtain ⟨⟨front, _⟩, hsplit, rfl⟩ := Option.map_eq_some_iff.mp h
  obtain ⟨rfl, rfl⟩ := splitAt?_eq_some_iff.mp hsplit
  rw [byteLength_append, byteLength_cons]
  omega

/-- The position behind the characters of a class that follow. -/
def eatWhile? (input : List Char) (p : Char → Bool) (pos : Nat) : Option Nat :=
  match _h : rest? input pos with
  | none => none
  | some [] => some pos
  | some (c :: _) => if p c then eatWhile? input p (pos + c.utf8Size) else some pos
termination_by byteLength input - pos
decreasing_by
  have hle := add_le_of_rest? _h
  have hpos := c.utf8Size_pos
  omega

/-- The position behind a literal whose opening quote has been passed, and whether the literal is
closed. A character that is escaped closes nothing. -/
def literalEnd? (input : List Char) (escaped : Bool) (pos : Nat) : Option (Nat × Bool) :=
  match _h : rest? input pos with
  | none => none
  | some [] => some (pos, false)
  | some (c :: _) =>
    if escaped then literalEnd? input false (pos + c.utf8Size)
    else if c = '\\' then literalEnd? input true (pos + c.utf8Size)
    else if c = '"' then some (pos + c.utf8Size, true)
    else literalEnd? input false (pos + c.utf8Size)
termination_by byteLength input - pos
decreasing_by
  all_goals
    have hle := add_le_of_rest? _h
    have hpos := c.utf8Size_pos
    omega

/-- The text begins with an infinity. What follows is looked at only behind its two letters. -/
def isInfinity? (cs : List Char) : Option Bool :=
  if ['o', 'o'] <+: cs then (rest? cs 2).map fun behind => !behind.head?.any isWordChar
  else some false

/-- Behind the minus sign at the position, a number or an infinity follows. -/
def negativeFollows? (input : List Char) (pos : Nat) : Option Bool := do
  let behind ← rest? input (pos + 1)
  if behind.head?.any Char.isDigit then some true else isInfinity? behind

/-- The character at the position is the minus sign of a number. Only behind a minus sign is
anything looked at. -/
def startsNegative? (input : List Char) (pos : Nat) (c : Char) : Option Bool :=
  if c = '-' then negativeFollows? input pos else some false

/-- The position behind an infinity, or else behind the digits that follow. -/
def numberEnd? (input : List Char) (pos : Nat) : Option Nat := do
  let behind ← rest? input pos
  if ← isInfinity? behind then some (pos + 2) else eatWhile? input Char.isDigit pos

/-! ## Turns -/

/-- What one turn yields: the sort of a token, the position behind it, and what is wrong with it. -/
structure Turn where
  /-- The sort of the token. -/
  kind : Kind
  /-- The position behind the token. -/
  stop : Nat
  /-- What is wrong. -/
  finding? : Option Finding
deriving DecidableEq

/-- A turn that finds nothing wrong. -/
def Turn.to (kind : Kind) (stop : Nat) : Turn := ⟨kind, stop, none⟩

/-- A literal, from its opening quote on. -/
def literal? (input : List Char) (start : Nat) : Option Turn := do
  let (stop, closed) ← literalEnd? input false (start + 1)
  some ⟨.string, stop, if closed then none else some ⟨.unterminatedString, ⟨start, stop⟩⟩⟩

/-- A word, unless it is an infinity. -/
def word? (input : List Char) (start : Nat) : Option Turn := do
  let stop ← eatWhile? input isWordChar start
  let word ← slice? start stop input
  some (.to (if word = ['o', 'o'] then .integer else .word) stop)

/-- An operator, or a character that begins nothing. -/
def sign? (input : List Char) (start : Nat) (c : Char) : Option Turn := do
  let behind ← rest? input start
  match symbolicAlias? behind with
  | some name => some (.to .op (start + byteLength name.toList))
  | none =>
    let stop := start + c.utf8Size
    some ⟨.unknown, stop, some ⟨.unknownCharacter (String.ofList [c]), ⟨start, stop⟩⟩⟩

/-- A turn at a character that does not decide by itself. At a minus sign, what follows decides. -/
def unmarked? (input : List Char) (start : Nat) (c : Char) : Option Turn := do
  if c.isDigit then (eatWhile? input Char.isDigit start).map (.to .integer)
  else
    if ← startsNegative? input start c then (numberEnd? input (start + 1)).map (.to .integer)
    else if isWordStart c then word? input start
    else sign? input start c

/-- One turn of the lexer at a character that is not blank. -/
def branch? (input : List Char) (start : Nat) (c : Char) : Option Turn :=
  if c = commentMark then (eatWhile? input (· != '\n') start).map (.to .lineComment)
  else if c = sigil then (eatWhile? input isWordChar (start + 1)).map (.to .variable)
  else if c = '"' then literal? input start
  else if let some kind := punctuation? c then some (.to kind (start + 1))
  else unmarked? input start c

/-- All turns of the lexer from a position on: the sorts and the places of the tokens, and what is
wrong with them. There is no answer if the number of turns does not suffice. -/
def lexFrom? (input : List Char) : (turns pos : Nat) → Option (List (Kind × Span) × List Finding)
  | 0, _ => none
  | turns + 1, pos => do
    match ← rest? input pos with
    | [] => some ([(.eof, ⟨byteLength input, byteLength input⟩)], [])
    | c :: _ =>
      if isBlank c then lexFrom? input turns (pos + c.utf8Size)
      else
        let turn ← branch? input pos c
        let (tokens, findings) ← lexFrom? input turns turn.stop
        some ((turn.kind, ⟨pos, turn.stop⟩) :: tokens, turn.finding?.toList ++ findings)

/-! ## Steps stay between characters -/

section Steps

variable (front cs : List Char)

/-- Behind a first part of the text, the rest of it follows. -/
theorem rest?_append : rest? (front ++ cs) (byteLength front) = some cs := by
  rw [rest?, splitAt?_append]
  rfl

/-- With one more character in front, the position grows by its bytes. -/
theorem byteLength_concat (c : Char) :
    byteLength (front ++ [c]) = byteLength front + c.utf8Size := byteLength_append _ _

/-- Behind one more character, the rest follows too. -/
theorem rest?_append_cons (c : Char) :
    rest? (front ++ c :: cs) (byteLength front + c.utf8Size) = some cs := by
  rw [List.append_cons, ← byteLength_concat, rest?_append]

/-- At the end, nothing more is passed. -/
theorem eatWhile?_end {input : List Char} {p : Char → Bool} {pos : Nat}
    (h : rest? input pos = some []) : eatWhile? input p pos = some pos := by
  rw [eatWhile?]
  split <;> simp_all

/-- A character of the class is passed, and any other one is not. -/
theorem eatWhile?_step {input rest : List Char} {p : Char → Bool} {pos : Nat} {c : Char}
    (h : rest? input pos = some (c :: rest)) :
    eatWhile? input p pos =
      if p c then eatWhile? input p (pos + c.utf8Size) else some pos := by
  rw [eatWhile?]
  split <;> simp_all

/-- Characters of a class are passed one after the other. -/
theorem eatWhile?_append (p : Char → Bool) :
    eatWhile? (front ++ cs) p (byteLength front) =
      some (byteLength front + byteLength (cs.takeWhile p)) := by
  induction cs generalizing front with
  | nil => exact eatWhile?_end (rest?_append front [])
  | cons c cs ih =>
      rw [eatWhile?_step (rest?_append front (c :: cs))]
      split
      · rename_i hc
        rw [List.append_cons, ← byteLength_concat, ih, List.takeWhile_cons_of_pos hc,
          byteLength_concat, byteLength_cons, Nat.add_assoc]
      · rename_i hc
        rw [List.takeWhile_cons_of_neg hc, byteLength_nil, Nat.add_zero]

/-- So are they behind a first character, whatever that is. -/
theorem eatWhile?_append_cons (p : Char → Bool) (c : Char) :
    eatWhile? (front ++ c :: cs) p (byteLength front + c.utf8Size) =
      some (byteLength front + byteLength (c :: cs.take (run p cs))) := by
  rw [List.append_cons, ← byteLength_concat, eatWhile?_append, byteLength_concat, take_run,
    byteLength_cons, Nat.add_assoc]

/-- A first character of the class is passed with them. -/
theorem eatWhile?_cons {p : Char → Bool} {c : Char} (hc : p c) :
    eatWhile? (front ++ c :: cs) p (byteLength front) =
      some (byteLength front + byteLength (c :: cs.take (run p cs))) := by
  rw [eatWhile?_append, List.takeWhile_cons_of_pos hc, take_run]

/-- At the end, a literal is not closed. -/
theorem literalEnd?_end {input : List Char} {escaped : Bool} {pos : Nat}
    (h : rest? input pos = some []) : literalEnd? input escaped pos = some (pos, false) := by
  rw [literalEnd?]
  split <;> simp_all

/-- What a character does inside a literal. -/
theorem literalEnd?_step {input rest : List Char} {escaped : Bool} {pos : Nat} {c : Char}
    (h : rest? input pos = some (c :: rest)) :
    literalEnd? input escaped pos =
      if escaped then literalEnd? input false (pos + c.utf8Size)
      else if c = '\\' then literalEnd? input true (pos + c.utf8Size)
      else if c = '"' then some (pos + c.utf8Size, true)
      else literalEnd? input false (pos + c.utf8Size) := by
  rw [literalEnd?]
  split <;> simp_all

/-- A literal reaches as far as its rule says, and is closed if there is a quote for it. -/
theorem literalEnd?_append :
    literalEnd? (front ++ cs) false (byteLength front) =
      some (byteLength front + byteLength (cs.take (literalLength cs)), closesLiteral cs) := by
  induction cs using literal_induct generalizing front with
  | nil => exact literalEnd?_end (rest?_append front [])
  | quote cs =>
      rw [literalEnd?_step (rest?_append front _)]
      rfl
  | backslash =>
      -- there is nothing behind it to be escaped
      rw [literalEnd?_step (rest?_append front _)]
      simp only [Bool.false_eq_true, if_false, if_true]
      rw [List.append_cons, ← byteLength_concat, literalEnd?_end (rest?_append _ []),
        byteLength_append]
      rfl
  | escape e cs ih =>
      -- the backslash and what it escapes are two steps
      rw [literalEnd?_step (rest?_append front _)]
      simp only [Bool.false_eq_true, if_false, if_true]
      rw [List.append_cons, ← byteLength_concat, literalEnd?_step (rest?_append _ _), if_pos rfl,
        List.append_cons, ← byteLength_concat, ih]
      simp [literalLength, closesLiteral, Nat.add_assoc]
  | other c cs hq hb ih =>
      rw [literalEnd?_step (rest?_append front _)]
      simp only [Bool.false_eq_true, if_false, if_neg hq, if_neg hb]
      rw [List.append_cons, ← byteLength_concat, ih, closesLiteral_cons hq hb,
        literalLength_cons hq hb, byteLength_concat, List.take_succ_cons, byteLength_cons,
        Nat.add_assoc]

/-- A literal is closed by one of its own characters. -/
theorem closesLiteral_take_literalLength :
    closesLiteral (cs.take (literalLength cs)) = closesLiteral cs := by
  induction cs using literal_induct with
  | nil => rfl
  | quote => rfl
  | backslash => rfl
  | escape e cs ih => exact ih
  | other c cs hq hb ih =>
      rw [literalLength_cons hq hb, List.take_succ_cons, closesLiteral_cons hq hb,
        closesLiteral_cons hq hb, ih]

/-- An infinity is asked for without leaving a boundary. -/
theorem isInfinity?_eq : isInfinity? cs = some (startsInfinity cs) := by
  unfold isInfinity?
  split
  · rename_i hletters
    obtain ⟨behind, rfl⟩ := hletters
    have hrest : rest? (['o', 'o'] ++ behind) 2 = some behind := rest?_append ['o', 'o'] behind
    rw [hrest]
    rfl
  · rename_i hletters
    have hfirst : ['o', 'o'].isPrefixOf cs = false := by
      rwa [Bool.eq_false_iff, Ne, List.isPrefixOf_iff_prefix]
    rw [startsInfinity_eq, hfirst, Bool.false_and]

/-- Behind a minus sign, what its rules ask for is looked at. -/
theorem startsNegative?_append (c : Char) :
    startsNegative? (front ++ c :: cs) (byteLength front) c =
      some (c = '-' && (cs.head?.any Char.isDigit || startsInfinity cs)) := by
  unfold startsNegative?
  split
  · rename_i hminus
    subst hminus
    have hrest : rest? (front ++ '-' :: cs) (byteLength front + 1) = some cs :=
      rest?_append_cons front cs '-'
    rw [negativeFollows?, hrest, Option.bind_eq_bind, Option.bind_some, isInfinity?_eq]
    cases cs.head?.any Char.isDigit <;> rfl
  · rename_i hminus
    rw [decide_eq_false hminus, Bool.false_and]

/-- An infinity is passed, or else digits. -/
theorem numberEnd?_append_cons (c : Char) :
    numberEnd? (front ++ c :: cs) (byteLength front + c.utf8Size) =
      some (if startsInfinity cs then byteLength front + c.utf8Size + 2
        else byteLength front + byteLength (c :: cs.take (run Char.isDigit cs))) := by
  unfold numberEnd?
  rw [rest?_append_cons, Option.bind_eq_bind, Option.bind_some, isInfinity?_eq,
    Option.bind_eq_bind, Option.bind_some, eatWhile?_append_cons]
  split <;> rfl

end Steps

/-! ## Turns follow the rules -/

/-- The turn that takes a token. -/
def Turn.of (t : Token) : Turn := ⟨t.kind, t.stop, Finding.ofToken? t⟩

/-- Only characters that no rule takes and literals can be wrong. -/
theorem Turn.of_eq_to {kind : Kind} (hunknown : kind ≠ .unknown) (hstring : kind ≠ .string)
    (start : Nat) (text : List Char) :
    Turn.of ⟨kind, start, String.ofList text⟩ = .to kind (start + byteLength text) := by
  rw [Turn.of, stop_ofList]
  cases kind <;> simp_all [Finding.ofToken?, Turn.to]

/-- At a character that does not decide by itself, the first turns are passed over. -/
theorem branch?_of_not_isMark {c : Char} (h : isMark c = false) (input : List Char) (start : Nat) :
    branch? input start c = unmarked? input start c := by
  simp only [isMark, Bool.or_eq_false_iff, decide_eq_false_iff_not, Option.isSome_eq_false_iff,
    Option.isNone_iff_eq_none] at h
  obtain ⟨⟨⟨hcomment, hsigil⟩, hquote⟩, hp⟩ := h
  rw [branch?, if_neg hcomment, if_neg hsigil, if_neg hquote]
  generalize punctuation? c = mark at hp
  subst hp
  rfl

/-- What begins a word can stand inside one. -/
theorem isWordChar_of_isWordStart {c : Char} (h : isWordStart c) : isWordChar c := by
  simp only [isWordStart, isWordChar, Char.isAlphanum, Bool.or_eq_true] at h ⊢
  exact h.imp_right .inl

/-- Punctuation is one byte. -/
theorem utf8Size_of_punctuation? {c : Char} {kind : Kind} (h : punctuation? c = some kind) :
    c.utf8Size = 1 := by
  unfold punctuation? at h
  split at h <;> first | rfl | cases h

/-- A word is cut out between its ends. -/
theorem word?_append {c : Char} (hc : isWordStart c) (front cs : List Char) :
    word? (front ++ c :: cs) (byteLength front) =
      some (.to (if c :: cs.take (run isWordChar cs) = ['o', 'o'] then .integer else .word)
        (byteLength front + byteLength (c :: cs.take (run isWordChar cs)))) := by
  have hslice : slice? (byteLength front)
      (byteLength front + byteLength (c :: cs.take (run isWordChar cs))) (front ++ c :: cs) =
        some (c :: cs.take (run isWordChar cs)) := by
    refine slice?_eq_some_iff.mpr ⟨front, cs.drop (run isWordChar cs), ?_, rfl, rfl⟩
    rw [List.append_assoc, List.cons_append, List.take_append_drop]
  unfold word?
  rw [eatWhile?_cons front cs (isWordChar_of_isWordStart hc), Option.bind_eq_bind,
    Option.bind_some, hslice]
  rfl

section Unmarked

variable (front cs : List Char)

/-- A minus sign is passed with the number behind it. -/
theorem unmarked?_minus (h : cs.head?.any Char.isDigit || startsInfinity cs) :
    unmarked? (front ++ '-' :: cs) (byteLength front) '-' =
      some (.to .integer (if startsInfinity cs then byteLength front + 1 + 2
        else byteLength front + byteLength ('-' :: cs.take (run Char.isDigit cs)))) := by
  have hnumber := numberEnd?_append_cons front cs '-'
  rw [unmarked?, if_neg (by decide), startsNegative?_append, h, Option.bind_eq_bind,
    Option.bind_some, if_pos (by decide)]
  exact congrArg (Option.map (Turn.to .integer)) hnumber

variable {c : Char} (hdigit : c.isDigit = false)
  (hneg : c = '-' → cs.head?.any Char.isDigit = false ∧ startsInfinity cs = false)

include hdigit hneg

/-- Any other character is passed with its word, or as a sign. -/
theorem unmarked?_of_not_negative :
    unmarked? (front ++ c :: cs) (byteLength front) c =
      if isWordStart c then word? (front ++ c :: cs) (byteLength front)
      else sign? (front ++ c :: cs) (byteLength front) c := by
  have hnegative : (c = '-' && (cs.head?.any Char.isDigit || startsInfinity cs)) = false := by
    simp_all
  rw [unmarked?, if_neg (by rw [hdigit]; decide), startsNegative?_append, hnegative,
    Option.bind_eq_bind, Option.bind_some, if_neg (by decide)]

end Unmarked

/-- What begins a word is passed with the word. -/
theorem branch?_of_isWordStart {c : Char} (hc : isWordStart c) (front cs : List Char) :
    branch? (front ++ c :: cs) (byteLength front) c =
      some (.to (if c :: cs.take (run isWordChar cs) = ['o', 'o'] then .integer else .word)
        (byteLength front + byteLength (c :: cs.take (run isWordChar cs)))) := by
  obtain ⟨hdigit, hminus⟩ := class_of_isWordStart hc
  rw [branch?_of_not_isMark (isMark_eq_false (.inr (.inl hc))),
    unmarked?_of_not_negative front cs hdigit fun h => absurd h hminus, if_pos hc, word?_append hc]

/-- **A turn takes what the rule says.** -/
theorem Rule.branch?_eq {c : Char} {cs : List Char} {kind : Kind} {length : Nat}
    (h : Rule c cs kind length) (front : List Char) :
    branch? (front ++ c :: cs) (byteLength front) c =
      some (.of ⟨kind, byteLength front, String.ofList (c :: cs.take length)⟩) := by
  cases h with
  | comment hc =>
      subst hc
      rw [branch?, if_pos rfl, eatWhile?_cons front cs (by decide),
        Turn.of_eq_to (by decide) (by decide)]
      rfl
  | name hc =>
      subst hc
      have heat := eatWhile?_append_cons front cs isWordChar sigil
      rw [branch?, if_neg (by decide), if_pos rfl, Turn.of_eq_to (by decide) (by decide)]
      exact congrArg (Option.map (Turn.to .variable)) heat
  | literal hc =>
      subst hc
      have hend : literalEnd? (front ++ '"' :: cs) false (byteLength front + 1) =
          some (byteLength front + byteLength ('"' :: cs.take (literalLength cs)),
            closesLiteral cs) := by
        have happend := literalEnd?_append (front ++ ['"']) cs
        rwa [← List.append_cons, byteLength_concat, Nat.add_assoc] at happend
      rw [branch?, if_neg (by decide), if_neg (by decide), if_pos rfl, literal?, hend,
        Option.bind_eq_bind, Option.bind_some, Turn.of, Finding.ofToken?, Token.isClosedLiteral,
        Token.span, stop_ofList, String.toList_ofList, List.tail_cons,
        closesLiteral_take_literalLength]
  | punctuation hc =>
      have hsize := utf8Size_of_punctuation? hc
      have hbranch : branch? (front ++ c :: cs) (byteLength front) c =
          some (.to kind (byteLength front + 1)) := by
        unfold punctuation? at hc
        split at hc <;> cases hc <;> rfl
      have hkind := kind_of_punctuation? hc
      rw [hbranch, Turn.of_eq_to (by rintro rfl; exact absurd hkind (by decide))
        (by rintro rfl; exact absurd hkind (by decide)), List.take_zero, byteLength_cons, hsize,
        byteLength_nil]
  | digits hc =>
      rw [branch?_of_not_isMark (isMark_eq_false (.inl hc)), unmarked?, if_pos hc,
        eatWhile?_cons front cs hc, Turn.of_eq_to (by decide) (by decide)]
      rfl
  | negative hc hd =>
      subst hc
      have hoo : startsInfinity cs = false := by
        rw [Bool.eq_false_iff]
        intro h
        rw [not_digit_of_startsInfinity h] at hd
        cases hd
      rw [branch?_of_not_isMark (by decide), unmarked?_minus front cs (by rw [hd]; rfl), hoo,
        Turn.of_eq_to (by decide) (by decide)]
      rfl
  | negativeInfinity hc hoo =>
      subst hc
      obtain ⟨behind, rfl, -⟩ := startsInfinity_iff.mp hoo
      rw [branch?_of_not_isMark (by decide), unmarked?_minus front _ (by rw [hoo, Bool.or_true]),
        hoo, Turn.of_eq_to (by decide) (by decide)]
      rfl
  | infinity hc hoo =>
      rw [branch?_of_isWordStart hc, if_pos hoo, Turn.of_eq_to (by decide) (by decide)]
  | word hc hoo =>
      rw [branch?_of_isWordStart hc, if_neg hoo, Turn.of_eq_to (by decide) (by decide)]
  | operator hc hneg ha =>
      obtain ⟨hmark, hdigit, hword⟩ := hc
      rw [branch?_of_not_isMark hmark, unmarked?_of_not_negative front cs hdigit hneg,
        if_neg (by rw [hword]; decide), sign?, rest?_append, Option.bind_eq_bind, Option.bind_some,
        ha, Turn.of_eq_to (by decide) (by decide), cons_take_of_symbolicAlias? ha]
  | unknown hc ha =>
      have hminus : c ≠ '-' := by
        rintro rfl
        rw [symbolicAlias?_minus] at ha
        cases ha
      obtain ⟨hmark, hdigit, hword⟩ := hc
      rw [branch?_of_not_isMark hmark,
        unmarked?_of_not_negative front cs hdigit fun h => absurd h hminus,
        if_neg (by rw [hword]; decide), sign?, rest?_append, Option.bind_eq_bind, Option.bind_some,
        ha, List.take_zero, Turn.of, Finding.ofToken?, Token.span, stop_ofList]
      rfl

/-! ## The lexer -/

section Turns

variable {input rest : List Char} {turns pos : Nat} {c : Char}
  (h : rest? input pos = some (c :: rest))

include h

/-- A blank is passed over. -/
theorem lexFrom?_blank (hblank : isBlank c) :
    lexFrom? input (turns + 1) pos = lexFrom? input turns (pos + c.utf8Size) := by
  rw [lexFrom?, h, Option.bind_eq_bind, Option.bind_some]
  exact if_pos hblank

/-- Any other character begins a token, and the next turn begins behind it. -/
theorem lexFrom?_token (hblank : ¬ isBlank c) {turn : Turn}
    (hturn : branch? input pos c = some turn) {tokens : List (Kind × Span)}
    {findings : List Finding}
    (hnext : lexFrom? input turns turn.stop = some (tokens, findings)) :
    lexFrom? input (turns + 1) pos =
      some ((turn.kind, ⟨pos, turn.stop⟩) :: tokens, turn.finding?.toList ++ findings) := by
  rw [lexFrom?, h, Option.bind_eq_bind, Option.bind_some]
  dsimp only
  rw [if_neg hblank, hturn, Option.bind_eq_bind, Option.bind_some, hnext]
  rfl

end Turns

/-- A turn takes the token that the scan takes, and both go on behind the same part of the text. -/
theorem exists_turn {c : Char} (hblank : ¬ isBlank c) (front cs : List Char) :
    ∃ t passed behind, front ++ c :: cs = passed ++ behind ∧ behind.length ≤ cs.length ∧
      t.start = byteLength front ∧ t.stop = byteLength passed ∧
      branch? (front ++ c :: cs) (byteLength front) c = some (.of t) ∧
      scan 0 (byteLength front) (c :: cs) = t :: scan 0 (byteLength passed) behind := by
  have hturn := (munch_rule c cs).branch?_eq front
  have hlength := munch_length_le c cs
  rw [scan_cons hblank]
  generalize (munch c cs).1 = kind at hturn ⊢
  generalize (munch c cs).2 = length at hturn hlength ⊢
  have hpassed : byteLength (front ++ c :: cs.take length) =
      byteLength front + c.utf8Size + byteLength (cs.take length) := by
    rw [byteLength_append, byteLength_cons, Nat.add_assoc]
  have hscan := scan_length_append (cs.take length) (cs.drop length) (byteLength front + c.utf8Size)
  rw [List.take_append_drop, List.length_take_of_le hlength, ← hpassed] at hscan
  refine ⟨_, front ++ c :: cs.take length, cs.drop length, ?_, ?_, rfl, ?_, hturn, ?_⟩
  · rw [List.append_assoc, List.cons_append, List.take_append_drop]
  · rw [List.length_drop]
    exact Nat.sub_le _ _
  · rw [stop_ofList, byteLength_append]
  · rw [hscan]

/-- **The lexer by positions goes where the rules go.** From a position between two characters, as
many turns as there are characters and one more suffice. -/
theorem lexFrom?_append {turns : Nat} (front cs : List Char) (hturns : cs.length < turns) :
    lexFrom? (front ++ cs) turns (byteLength front) =
      some ((scan 0 (byteLength front) cs ++ [ending (byteLength (front ++ cs))]).map
          fun t => (t.kind, t.span),
        (scan 0 (byteLength front) cs).filterMap Finding.ofToken?) := by
  induction turns generalizing front cs with
  | zero => exact absurd hturns (Nat.not_lt_zero _)
  | succ turns ih =>
      have hrest := rest?_append front cs
      cases cs with
      | nil =>
          rw [lexFrom?, hrest, List.append_nil]
          rfl
      | cons c cs =>
          rw [List.length_cons] at hturns
          by_cases hblank : isBlank c
          · rw [lexFrom?_blank hrest hblank, List.append_cons, ← byteLength_concat,
              ih _ _ (by omega), byteLength_concat, scan, if_pos hblank]
          · obtain ⟨t, passed, behind, htext, hbehind, hstart, hstop, hturn, hscan⟩ :=
              exists_turn hblank front cs
            have hnext := ih passed behind (by omega)
            rw [← htext, ← hstop] at hnext
            rw [lexFrom?_token hrest hblank hturn hnext, hscan, ← hstop, ← hstart]
            cases hfinding : Finding.ofToken? t with
            | none => simp [Turn.of, Token.span, hfinding]
            | some f => simp [Turn.of, Token.span, hfinding]

/-- **The lexer by positions never leaves a boundary.** It comes to the end of every source, with
the tokens of the source and what is wrong with them. -/
theorem lexFrom?_eq_lex (source : String) {turns : Nat} (hturns : source.toList.length < turns) :
    lexFrom? source.toList turns 0 =
      some ((lex source).map fun t => (t.kind, t.span),
        (lex source).filterMap Finding.ofToken?) := by
  have happend := lexFrom?_append [] source.toList hturns
  rw [List.nil_append, byteLength_nil] at happend
  have hending : [ending (byteLength source.toList)].filterMap Finding.ofToken? = [] := rfl
  rw [happend, lex, List.filterMap_append, hending, List.append_nil]

end GolfAssist.Token
