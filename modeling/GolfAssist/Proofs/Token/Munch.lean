import GolfAssist.Proofs.Token.Place
import Mathlib.Data.List.TakeWhile

/-!
# How far a token looks ahead

* `Token.exists_munch_of_mem_scan` — a token is what its rule takes at the place where it starts.
* `Token.isBar` — a character that continues no token but a comment or a literal, and
  `Token.munch_append` — a token that ends in front of such a character does not depend on what
  comes behind.
* `Token.exists_scan_append_eq` — where a token starts with such a character, the tokens in front of
  it are the same whatever comes behind.
* `Token.scan_add` — the tokens of a text move with it.
* `Token.exists_scan_variable` — where a variable stands, any other one can stand.

Some rules look further than their token reaches: a minus sign looks past an infinity, and a sign
looks for a longer alias. All of them stop looking at a bar.
-/

namespace GolfAssist.Token

open Text Lexicon

/-! ## Tokens and their rules -/

/-- A token that is scanned is what its rule takes at its start. -/
theorem exists_munch_of_mem_scan {skip offset : Nat} {cs : List Char} {t : Token}
    (h : t ∈ scan skip offset cs) :
    ∃ a c rest, cs = a ++ c :: rest ∧ isBlank c = false ∧
      t = ⟨(munch c rest).1, offset + byteLength a,
        String.ofList (c :: rest.take (munch c rest).2)⟩ := by
  fun_induction scan skip offset cs with
  | case1 => simp at h
  | case2 skip offset c cs ih =>
      obtain ⟨a, d, rest, rfl, hd, rfl⟩ := ih h
      exact ⟨c :: a, d, rest, rfl, hd, by rw [byteLength_cons, Nat.add_assoc]⟩
  | case3 offset c cs hblank ih =>
      obtain ⟨a, d, rest, rfl, hd, rfl⟩ := ih h
      exact ⟨c :: a, d, rest, rfl, hd, by rw [byteLength_cons, Nat.add_assoc]⟩
  | case4 offset c cs hblank kind length hmunch ih =>
      rcases List.mem_cons.mp h with rfl | h
      · exact ⟨[], c, cs, rfl, by simpa using hblank, by rw [hmunch]; rfl⟩
      · obtain ⟨a, d, rest, rfl, hd, rfl⟩ := ih h
        exact ⟨c :: a, d, rest, rfl, hd, by rw [byteLength_cons, Nat.add_assoc]⟩

/-- A sigil takes the characters of words behind it. -/
theorem munch_sigil (cs : List Char) : munch sigil cs = (.variable, run isWordChar cs) := rfl

/-- Only a sigil begins a variable. -/
theorem eq_sigil_of_munch {c : Char} {cs : List Char} (h : (munch c cs).1 = .variable) :
    c = sigil := by
  have hrule := munch_rule c cs
  rw [h] at hrule
  generalize (munch c cs).2 = length at hrule
  cases hrule with
  | name hc => exact hc
  | punctuation hc => exact absurd (kind_of_punctuation? hc) (by decide)

/-- The characters that a run counts. -/
theorem take_run (p : Char → Bool) (cs : List Char) : cs.take (run p cs) = cs.takeWhile p :=
  (List.prefix_iff_eq_take.mp (List.takeWhile_prefix p)).symm

/-- A variable is a sigil and all characters of words that follow it. -/
theorem exists_word_of_mem_lex {source : String} {t : Token} (h : t ∈ lex source)
    (hk : t.kind = .variable) :
    ∃ a word b, source.toList = a ++ sigil :: word ++ b ∧
      t = ⟨.variable, byteLength a, String.ofList (sigil :: word)⟩ ∧
      (∀ c ∈ word, isWordChar c) ∧ b.head?.any isWordChar = false := by
  rcases List.mem_append.mp h with h | h
  · obtain ⟨a, c, rest, hsource, -, rfl⟩ := exists_munch_of_mem_scan h
    obtain rfl := eq_sigil_of_munch hk
    refine ⟨a, rest.takeWhile isWordChar, rest.dropWhile isWordChar, ?_, ?_, ?_, ?_⟩
    · rw [hsource, List.append_assoc, List.cons_append, List.takeWhile_append_dropWhile]
    · rw [munch_sigil, take_run, Nat.zero_add]
    · exact fun c hc => List.mem_takeWhile_imp hc
    · have hstop := List.head?_dropWhile_not isWordChar rest
      cases hhead : (rest.dropWhile isWordChar).head? with
      | none => rfl
      | some c =>
          rw [hhead] at hstop
          exact hstop
  · obtain rfl := List.mem_singleton.mp h
    cases hk

/-! ## Bars -/

/-- The character continues no token but a comment or a literal. -/
def isBar (c : Char) : Bool :=
  !isWordChar c && symbolicAliases.all fun name => !name.toList.contains c

/-- A sigil is a bar. -/
theorem isBar_sigil : isBar sigil := by decide

/-- What begins with a bar, or is empty, does not begin with a character of a word. -/
theorem head?_any_isWordChar {x : List Char} (hx : x.head?.all isBar) :
    x.head?.any isWordChar = false := by
  cases x with
  | nil => rfl
  | cons d x =>
      simp only [List.head?_cons, Option.all_some, isBar, Bool.and_eq_true] at hx
      simpa using hx.1

/-- The first character is not in a class, if what may come first is not. -/
theorem head?_any_append {p : Char → Bool} (a : List Char) {x : List Char}
    (hx : x.head?.any p = false) : (a ++ x).head?.any p = a.head?.any p := by
  cases a with
  | nil => exact hx
  | cons c a => rfl

/-- A run does not go on into a text that it stops at, or if it has stopped before. -/
theorem run_append {p : Char → Bool} {a x : List Char}
    (h : x.head?.any p = false ∨ ∃ c ∈ a, p c = false) : run p (a ++ x) = run p a := by
  unfold run
  rw [List.takeWhile_append]
  split
  · rename_i hlen
    have hself : a.takeWhile p = a := (List.takeWhile_prefix p).eq_of_length hlen
    have hnil : x.takeWhile p = [] := by
      rcases h with h | ⟨c, hc, hp⟩
      · cases x with
        | nil => rfl
        | cons d x => exact List.takeWhile_cons_of_neg (by simpa using h)
      · have hpos := List.takeWhile_eq_self_iff.mp hself c hc
        simp [hp] at hpos
    rw [hnil, List.append_nil, hself]
  · rfl

/-- What holds of the text behind an opening quote is shown by what it begins with: a quote, a
backslash with what it escapes, or any other character. A backslash may also stand at the end. -/
@[elab_as_elim]
theorem literal_induct {P : List Char → Prop} (nil : P []) (quote : ∀ cs, P ('"' :: cs))
    (backslash : P ['\\']) (escape : ∀ c cs, P cs → P ('\\' :: c :: cs))
    (other : ∀ c cs, c ≠ '"' → c ≠ '\\' → P cs → P (c :: cs)) (cs : List Char) : P cs := by
  fun_induction literalLength cs with
  | case1 => exact nil
  | case2 cs => exact quote cs
  | case3 c cs ih => exact escape c cs ih
  | case4 c cs hq hb ih =>
      by_cases hc : c = '\\'
      · cases cs with
        | nil => exact hc ▸ backslash
        | cons d cs => exact absurd rfl (hb d cs hc)
      · exact other c cs hq hc ih

/-- A character that neither closes a literal nor escapes the next one is one more of it. -/
theorem literalLength_cons {c : Char} (hq : c ≠ '"') (hb : c ≠ '\\') (cs : List Char) :
    literalLength (c :: cs) = literalLength cs + 1 := by
  rw [literalLength]
  · exact hq
  · exact fun _ _ h _ => hb h

/-- Whether a literal is closed does not depend on it. -/
theorem closesLiteral_cons {c : Char} (hq : c ≠ '"') (hb : c ≠ '\\') (cs : List Char) :
    closesLiteral (c :: cs) = closesLiteral cs := by
  rw [closesLiteral]
  · exact hq
  · exact fun _ _ h _ => hb h

/-- A literal that ends in front of a character is closed there. -/
theorem closesLiteral_of_literalLength {a x : List Char} {d : Char}
    (h : literalLength (a ++ d :: x) ≤ a.length) : closesLiteral a := by
  induction a using literal_induct with
  | nil =>
      have hpos : 0 < literalLength (d :: x) := by
        unfold literalLength
        split <;> simp_all
      simp at h
      omega
  | quote => rfl
  | backslash => simp [literalLength] at h
  | escape e cs ih =>
      apply ih
      simp only [List.cons_append, literalLength, List.length_cons] at h
      omega
  | other c cs hq hb ih =>
      rw [closesLiteral_cons hq hb]
      apply ih
      rw [List.cons_append, literalLength_cons hq hb, List.length_cons] at h
      omega

/-- A literal that is closed has its length whatever comes behind. -/
theorem literalLength_append {a : List Char} (h : closesLiteral a) (x : List Char) :
    literalLength (a ++ x) = literalLength a := by
  induction a using literal_induct with
  | nil => cases h
  | quote => rfl
  | backslash => cases h
  | escape e cs ih => simp only [List.cons_append, literalLength, ih h]
  | other c cs hq hb ih =>
      rw [closesLiteral_cons hq hb] at h
      rw [List.cons_append, literalLength_cons hq hb, literalLength_cons hq hb, ih h]

/-- A name does not come first by way of characters that it does not have. -/
theorem isPrefixOf_append {name : List Char} (a : List Char) {x : List Char}
    (hx : ∀ d ∈ x.head?, d ∉ name) : name.isPrefixOf (a ++ x) = name.isPrefixOf a := by
  induction name generalizing a with
  | nil => simp
  | cons c name ih =>
      cases a with
      | nil =>
          cases x with
          | nil => rfl
          | cons d x =>
              have hd : c ≠ d := fun h => hx d rfl (h ▸ List.mem_cons_self)
              simp [List.isPrefixOf, hd]
      | cons d a =>
          have hx' : ∀ d ∈ x.head?, d ∉ name := fun d hd h => hx d hd (List.mem_cons_of_mem _ h)
          simp [List.isPrefixOf, ih a hx']

/-- The longest alias does not reach behind a bar. -/
theorem symbolicAlias?_append (a : List Char) {x : List Char} (hx : x.head?.all isBar) :
    symbolicAlias? (a ++ x) = symbolicAlias? a := by
  unfold symbolicAlias?
  congr 1
  apply List.filter_congr
  intro name hname
  refine isPrefixOf_append a fun d hd => ?_
  rw [Option.mem_def] at hd
  simp only [hd, Option.all_some, isBar, Bool.and_eq_true, List.all_eq_true] at hx
  simpa using hx.2 name hname

/-- An infinity is two letters, and no character of a word behind them. -/
theorem startsInfinity_eq (cs : List Char) :
    startsInfinity cs =
      (['o', 'o'].isPrefixOf cs && !(cs.drop 2).head?.any isWordChar) := by
  unfold startsInfinity
  split
  · simp [List.isPrefixOf]
  · rename_i hno
    have hfirst : ['o', 'o'].isPrefixOf cs = false := by
      rw [Bool.eq_false_iff]
      intro h
      obtain ⟨rest, rfl⟩ := List.isPrefixOf_iff_prefix.mp h
      exact hno rest rfl
    rw [hfirst, Bool.false_and]

/-- An infinity does not reach behind a bar. -/
theorem startsInfinity_append (a : List Char) {x : List Char} (hx : x.head?.all isBar) :
    startsInfinity (a ++ x) = startsInfinity a := by
  have hword := head?_any_isWordChar hx
  have hletters : ∀ d ∈ x.head?, d ∉ ['o', 'o'] := by
    rintro d hd hmem
    rw [Option.mem_def] at hd
    obtain rfl : d = 'o' := by simpa using hmem
    rw [hd] at hword
    exact absurd hword (by decide)
  rw [startsInfinity_eq, startsInfinity_eq, isPrefixOf_append a hletters]
  cases h : ['o', 'o'].isPrefixOf a with
  | false => rfl
  | true =>
      obtain ⟨rest, rfl⟩ := List.isPrefixOf_iff_prefix.mp h
      simp only [List.cons_append, List.nil_append, List.drop_succ_cons, List.drop_zero]
      rw [head?_any_append rest hword]

/-- **A token does not reach behind a bar.** What comes behind matters only for a comment that
has not met the end of its line, and for a literal that has not met its closing quote. -/
theorem munch_append {c : Char} {a x : List Char} (hx : x.head?.all isBar)
    (hline : c = commentMark → x.head?.any (· != '\n') = false ∨ '\n' ∈ a)
    (hclosed : c = '"' → closesLiteral a) : munch c (a ++ x) = munch c a := by
  have hword := head?_any_isWordChar hx
  have hdigit : x.head?.any Char.isDigit = false := by
    cases x with
    | nil => rfl
    | cons d x =>
        simp only [List.head?_cons, Option.any_some, isWordChar, Char.isAlphanum] at hword ⊢
        simp_all
  have hwords := @run_append isWordChar a x (.inl hword)
  have hdigits := @run_append Char.isDigit a x (.inl hdigit)
  have htake : (a ++ x).take (run isWordChar a) = a.take (run isWordChar a) :=
    List.take_append_of_le_length (List.takeWhile_prefix _).length_le
  have halias := symbolicAlias?_append (c :: a) hx
  unfold munch
  by_cases hcomment : c = commentMark
  · rw [if_pos hcomment, if_pos hcomment, run_append]
    rcases hline hcomment with h | h
    · exact .inl h
    · exact .inr ⟨_, h, by simp⟩
  rw [if_neg hcomment, if_neg hcomment, hwords]
  by_cases hquote : c = '"'
  · rw [if_pos hquote, if_pos hquote, literalLength_append (hclosed hquote)]
  rw [if_neg hquote, if_neg hquote, hdigits, head?_any_append a hdigit, startsInfinity_append a hx]
  dsimp only
  rw [htake, ← List.cons_append, halias]

/-- A token that ends in front of a bar is the same whatever comes behind the bar. -/
theorem munch_append_of_le {c d : Char} {a x : List Char} (hd : isBar d)
    (hlen : (munch c (a ++ d :: x)).2 ≤ a.length) (y : List Char) :
    munch c (a ++ d :: y) = munch c a := by
  refine munch_append hd ?_ ?_
  · rintro rfl
    by_contra hno
    rw [not_or] at hno
    -- the comment would go on over the bar
    have hall : ∀ c ∈ a, (c != '\n') = true := by
      intro c hc
      have hne : c ≠ '\n' := fun h => hno.2 (h ▸ hc)
      simpa using hne
    have hrun : run (· != '\n') (a ++ d :: x) ≤ a.length := hlen
    rw [run, List.takeWhile_append_of_pos hall, List.takeWhile_cons_of_pos (by simpa using hno.1),
      List.length_append, List.length_cons] at hrun
    omega
  · rintro rfl
    exact closesLiteral_of_literalLength hlen

/-! ## Scans -/

/-- A character that is not blank starts a token, and the scan goes on behind it. -/
theorem scan_cons {c : Char} (hc : ¬ isBlank c) (offset : Nat) (cs : List Char) :
    scan 0 offset (c :: cs) =
      ⟨(munch c cs).1, offset, String.ofList (c :: cs.take (munch c cs).2)⟩
        :: scan (munch c cs).2 (offset + c.utf8Size) cs := by
  rw [scan, if_neg hc]

/-- Skipping a first part of the text is scanning behind it. -/
theorem scan_length_append (a b : List Char) (offset : Nat) :
    scan a.length offset (a ++ b) = scan 0 (offset + byteLength a) b := by
  induction a generalizing offset with
  | nil => rfl
  | cons c a ih =>
      rw [List.length_cons, List.cons_append, scan, ih, byteLength_cons, Nat.add_assoc]

/-- A sigil and the characters of words behind it are one token. -/
theorem scan_variable {word b : List Char} (offset : Nat) (hword : ∀ c ∈ word, isWordChar c)
    (hb : b.head?.any isWordChar = false) :
    scan 0 offset (sigil :: word ++ b) =
      ⟨.variable, offset, String.ofList (sigil :: word)⟩
        :: scan 0 (offset + byteLength (sigil :: word)) b := by
  have hrun : run isWordChar (word ++ b) = word.length := by
    rw [run_append (.inl hb), run, List.takeWhile_eq_self_iff.mpr hword]
  rw [List.cons_append, scan_cons (by decide), munch_sigil, hrun, List.take_left,
    scan_length_append, byteLength_cons, Nat.add_assoc]

/-- A token that starts behind a first part of the text starts behind what is skipped, so no more
is skipped than that part. -/
theorem skip_le_of_mem_scan {skip offset : Nat} {a b : List Char} {t : Token}
    (ht : t ∈ scan skip offset (a ++ b)) (hstart : t.start = offset + byteLength a) :
    skip ≤ a.length := by
  obtain ⟨a', b', hab, hs, hskip⟩ := exists_split_of_mem_scan ht
  have hsplit : splitAt? (byteLength a) (a ++ b) = some (a', t.text.toList ++ b') :=
    splitAt?_eq_some_iff.mpr ⟨by rw [hab, List.append_assoc], by omega⟩
  rw [splitAt?_append] at hsplit
  obtain rfl : a = a' := congrArg Prod.fst (Option.some.inj hsplit)
  exact hskip

/-- **The tokens in front of a bar that starts a token** are the same whatever comes behind the
bar. -/
theorem exists_scan_append_eq {skip offset : Nat} {a x : List Char} {d : Char} {t : Token}
    (hd : isBar d) (ht : t ∈ scan skip offset (a ++ d :: x))
    (hstart : t.start = offset + byteLength a) :
    ∃ front, ∀ y, scan skip offset (a ++ d :: y) =
      front ++ scan 0 (offset + byteLength a) (d :: y) := by
  induction a generalizing skip offset with
  | nil =>
      cases skip with
      | zero => exact ⟨[], fun y => rfl⟩
      | succ skip =>
          have hle := le_start_of_mem_scan ht
          have hpos := d.utf8Size_pos
          simp only [List.nil_append, List.take_succ_cons, byteLength_cons, byteLength_nil]
            at hle hstart
          omega
  | cons c a ih =>
      rw [byteLength_cons, ← Nat.add_assoc] at hstart ⊢
      cases skip with
      | succ skip => exact ih ht hstart
      | zero =>
          by_cases hblank : isBlank c
          · rw [List.cons_append, scan, if_pos hblank] at ht
            obtain ⟨front, hfront⟩ := ih ht hstart
            refine ⟨front, fun y => ?_⟩
            rw [List.cons_append, scan, if_pos hblank, hfront]
          · rw [List.cons_append, scan_cons hblank] at ht
            rcases List.mem_cons.mp ht with rfl | ht
            · have hpos := c.utf8Size_pos
              dsimp only at hstart
              omega
            have hlen := skip_le_of_mem_scan ht hstart
            have hmunch := munch_append_of_le hd hlen
            rw [hmunch x] at ht hlen
            obtain ⟨front, hfront⟩ := ih ht hstart
            refine ⟨⟨(munch c a).1, offset, String.ofList (c :: a.take (munch c a).2)⟩ :: front,
              fun y => ?_⟩
            rw [List.cons_append, scan_cons hblank, hmunch y, List.take_append_of_le_length hlen,
              hfront, List.cons_append]

/-- The token in another place, further on by a distance. -/
def movedBy (distance : Nat) (t : Token) : Token := { t with start := t.start + distance }

/-- The tokens of a text move with it. -/
theorem scan_add (skip offset distance : Nat) (cs : List Char) :
    scan skip (offset + distance) cs = (scan skip offset cs).map (movedBy distance) := by
  fun_induction scan skip offset cs with
  | case1 => rfl
  | case2 skip offset c cs ih =>
      rw [scan, Nat.add_right_comm, ih]
  | case3 offset c cs hblank ih =>
      rw [scan, if_pos hblank, Nat.add_right_comm, ih]
  | case4 offset c cs hblank kind length hmunch ih =>
      rw [scan, if_neg hblank, Nat.add_right_comm, hmunch, List.map_cons, ← ih]
      rfl

/-- The end of a token moves with it. -/
theorem stop_movedBy (distance : Nat) (t : Token) :
    (t.movedBy distance).stop = t.stop + distance :=
  Nat.add_right_comm _ _ _

/-- **A variable in the place of another one.** Where a variable starts, the tokens in front are the
same whatever its name is, and those behind are the ones of the text that follows. -/
theorem exists_scan_variable {a word b : List Char} {t : Token}
    (ht : t ∈ scan 0 0 (a ++ sigil :: word ++ b)) (hstart : t.start = byteLength a)
    (hb : b.head?.any isWordChar = false) :
    ∃ front, (∀ u ∈ front, u.stop ≤ byteLength a) ∧
      ∀ name, (∀ c ∈ name, isWordChar c) → scan 0 0 (a ++ sigil :: name ++ b) =
        front ++ ⟨.variable, byteLength a, String.ofList (sigil :: name)⟩
          :: (scan 0 0 b).map (movedBy (byteLength (a ++ sigil :: name))) := by
  rw [List.append_assoc] at ht
  obtain ⟨front, hfront⟩ := exists_scan_append_eq isBar_sigil ht (by rw [hstart, Nat.zero_add])
  have hscan : ∀ name, (∀ c ∈ name, isWordChar c) → scan 0 0 (a ++ sigil :: name ++ b) =
      front ++ ⟨.variable, byteLength a, String.ofList (sigil :: name)⟩
        :: (scan 0 0 b).map (movedBy (byteLength (a ++ sigil :: name))) := by
    intro name hname
    rw [List.append_assoc, List.cons_append, hfront, ← List.cons_append, scan_variable _ hname hb,
      ← scan_add, Nat.zero_add, Nat.zero_add, byteLength_append]
  refine ⟨front, fun u hu => ?_, hscan⟩
  have hpairwise := scan_pairwise 0 0 (a ++ [sigil] ++ b)
  rw [hscan [] (by simp)] at hpairwise
  exact (List.pairwise_append.mp hpairwise).2.2 u hu _ List.mem_cons_self

end GolfAssist.Token
