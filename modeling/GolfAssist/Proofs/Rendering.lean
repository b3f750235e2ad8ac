import GolfAssist.Proofs.Spacing
import GolfAssist.Proofs.Token.Break

/-!
# Tokens written one below the other

* `Token.Rule.take` — a rule takes its token also where the source ends behind it.
* `Token.IsWhole` — the text of a token, read by itself, is that token. All tokens of a source are
  so: `Token.isWhole_of_mem_scan`.
* `Token.rendered` — the tokens of a source, each on a line of its own.
* `Token.lex_rendered` — reading them gives the same tokens, with the same things wrong with them.

Some rules look behind their token before they take it. What they find there keeps the token from
being longer or of another sort, and nothing does that at the end of a source. Between tokens stands
a line break, which nothing but a literal can pass; and a literal that is not closed has no token
behind it.
-/

namespace GolfAssist.Token

open Text Lexicon

/-! ## Tokens at the end of a source -/

/-- A run is as long when the text ends behind it. -/
theorem run_take (p : Char → Bool) (cs : List Char) : run p (cs.take (run p cs)) = run p cs := by
  rw [take_run, run, run, List.takeWhile_takeWhile]
  simp

/-- A literal is as long when the text ends behind it. -/
theorem literalLength_take (cs : List Char) :
    literalLength (cs.take (literalLength cs)) = literalLength cs := by
  induction cs using literal_induct with
  | nil => rfl
  | quote => rfl
  | backslash => rfl
  | escape d cs ih =>
      rw [literalLength, List.take_succ_cons, List.take_succ_cons, literalLength, ih]
  | other c cs hq hb ih =>
      rw [literalLength_cons hq hb, List.take_succ_cons, literalLength_cons hq hb, ih]

/-- Every alias made of signs is the longest one at its own front. -/
theorem symbolicAlias?_self {sign : String} (h : sign ∈ symbolicAliases) :
    symbolicAlias? sign.toList = some sign := by
  revert sign
  decide

/-- No alias begins a text exactly if it begins with none of them. -/
theorem symbolicAlias?_eq_none_iff {cs : List Char} :
    symbolicAlias? cs = none ↔ ∀ sign ∈ symbolicAliases, ¬ sign.toList <+: cs := by
  constructor
  · intro h sign hsign hfirst
    have hmem : sign ∈ symbolicAliases.filter (·.toList.isPrefixOf cs) :=
      List.mem_filter.mpr ⟨hsign, List.isPrefixOf_iff_prefix.mpr hfirst⟩
    rw [symbolicAlias?] at h
    rcases List.eq_nil_or_concat (symbolicAliases.filter (·.toList.isPrefixOf cs)) with
      hnil | ⟨signs, last, hlast⟩
    · rw [hnil] at hmem
      cases hmem
    · rw [hlast, List.concat_eq_append, List.foldl_concat] at h
      cases h
  · intro h
    rw [Option.eq_none_iff_forall_ne_some]
    intro sign hsign
    obtain ⟨hmem, hfirst⟩ := mem_of_symbolicAlias? hsign
    exact h sign hmem hfirst

/-- **A rule takes its token also where the source ends behind it.** -/
theorem Rule.take {c : Char} {cs : List Char} {kind : Kind} {length : Nat}
    (h : Rule c cs kind length) : Rule c (cs.take length) kind length := by
  cases h with
  | comment hc =>
      have hrule := @Rule.comment c (cs.take (run (· != '\n') cs)) hc
      rwa [run_take] at hrule
  | name hc =>
      have hrule := @Rule.name c (cs.take (run isWordChar cs)) hc
      rwa [run_take] at hrule
  | literal hc =>
      have hrule := @Rule.literal c (cs.take (literalLength cs)) hc
      rwa [literalLength_take] at hrule
  | punctuation hc => exact .punctuation hc
  | digits hc =>
      have hrule := @Rule.digits c (cs.take (run Char.isDigit cs)) hc
      rwa [run_take] at hrule
  | negative hc hd =>
      have hhead : (cs.take (run Char.isDigit cs)).head?.any Char.isDigit := by
        rw [take_run, List.head?_takeWhile]
        cases h : cs.head? <;> simp_all
      have hrule := @Rule.negative c (cs.take (run Char.isDigit cs)) hc hhead
      rwa [run_take] at hrule
  | negativeInfinity hc hoo =>
      rw [startsInfinity_eq, Bool.and_eq_true] at hoo
      obtain ⟨rest, rfl⟩ := List.isPrefixOf_iff_prefix.mp hoo.1
      exact .negativeInfinity hc rfl
  | infinity hc hoo =>
      have hrule := @Rule.infinity c (cs.take (run isWordChar cs)) hc
      rw [run_take, List.take_take, Nat.min_self] at hrule
      exact hrule hoo
  | word hc hoo =>
      have hrule := @Rule.word c (cs.take (run isWordChar cs)) hc
      rw [run_take, List.take_take, Nat.min_self] at hrule
      exact hrule hoo
  | @operator sign hc hneg ha =>
      refine .operator hc ?_ ?_
      · rintro rfl
        rw [symbolicAlias?_minus] at ha
        cases ha
        exact ⟨rfl, rfl⟩
      · rw [cons_take_of_symbolicAlias? ha]
        exact symbolicAlias?_self (mem_of_symbolicAlias? ha).1
  | unknown hc ha =>
      refine .unknown hc (symbolicAlias?_eq_none_iff.mpr fun sign hsign hfirst => ?_)
      exact symbolicAlias?_eq_none_iff.mp ha sign hsign (hfirst.trans ⟨cs, rfl⟩)

/-! ## Tokens by themselves -/

/-- The text of the token, read by itself, is the token. -/
def IsWhole (t : Token) : Prop :=
  ∃ c cs, t.text.toList = c :: cs ∧ isBlank c = false ∧ Rule c cs t.kind cs.length

/-- Every token of a text is whole. -/
theorem isWhole_of_mem_scan {skip offset : Nat} {cs : List Char} {t : Token}
    (h : t ∈ scan skip offset cs) : t.IsWhole := by
  obtain ⟨a, c, rest, rfl, hblank, rfl⟩ := exists_munch_of_mem_scan h
  refine ⟨c, rest.take (munch c rest).2, String.toList_ofList, hblank, ?_⟩
  rw [List.length_take_of_le (munch_length_le c rest)]
  exact (munch_rule c rest).take

/-- A text that is a whole token has that token and no other. -/
theorem IsWhole.scan_text {t : Token} (h : t.IsWhole) (offset : Nat) :
    scan 0 offset t.text.toList = [{ t with start := offset }] := by
  obtain ⟨c, cs, htext, hblank, hrule⟩ := h
  have hnone := scan_length_append cs [] (offset + c.utf8Size)
  rw [List.append_nil] at hnone
  rw [htext, scan_cons (by simp [hblank]), hrule.munch_eq, List.take_length, hnone, ← htext,
    String.ofList_toList]
  rfl

/-- Where a token is scanned, more than what is skipped is there. -/
theorem lt_length_of_mem_scan {skip offset : Nat} {cs : List Char} {t : Token}
    (h : t ∈ scan skip offset cs) : skip < cs.length := by
  obtain ⟨a, b, rfl, -, hskip⟩ := exists_split_of_mem_scan h
  have hpos := List.length_pos_of_ne_nil (text_ne_nil_and_kind_ne_eof_of_mem_scan h).1
  rw [List.length_append, List.length_append]
  omega

/-- A literal that ends in front of the end of the text is closed. -/
theorem closesLiteral_take {cs : List Char} (h : literalLength cs < cs.length) :
    closesLiteral (cs.take (literalLength cs)) := by
  obtain ⟨d, rest, hrest⟩ :=
    List.exists_cons_of_ne_nil (List.ne_nil_of_length_pos
      (show 0 < (cs.drop (literalLength cs)).length by rw [List.length_drop]; omega))
  apply closesLiteral_of_literalLength
  · rw [← hrest, List.take_append_drop, List.length_take_of_le (literalLength_le cs)]

/-- A literal is closed, or nothing stands behind it. -/
theorem scan_pairwise_closed (skip offset : Nat) (cs : List Char) :
    (scan skip offset cs).Pairwise
      fun t _ => t.kind = .string → closesLiteral t.text.toList.tail := by
  fun_induction scan skip offset cs with
  | case1 => exact .nil
  | case2 skip offset c cs ih => exact ih
  | case3 offset c cs hblank ih => exact ih
  | case4 offset c cs hblank kind length hmunch ih =>
      refine List.pairwise_cons.mpr ⟨fun u hu hkind => ?_, ih⟩
      obtain rfl : kind = .string := hkind
      have hlength := lt_length_of_mem_scan hu
      have hrule : Rule c cs .string length := by
        have hrule := munch_rule c cs
        rwa [hmunch] at hrule
      rw [String.toList_ofList, List.tail_cons]
      cases hrule with
      | literal hc => exact closesLiteral_take hlength
      | punctuation hc => exact absurd (kind_of_punctuation? hc) (by decide)

/-! ## Tokens on lines of their own -/

/-- The tokens of a source, each on a line of its own. -/
def rendered (source : String) : String :=
  "\n".intercalate ((lex source).dropLast.map (·.text))

/-- Whole tokens on lines of their own are read as they are, if none of them but the last one is an
open literal. -/
theorem map_lexeme_scan_lines {tokens : List Token} (hwhole : ∀ t ∈ tokens, t.IsWhole)
    (hclosed : tokens.Pairwise fun t _ => t.kind = .string → closesLiteral t.text.toList.tail)
    (offset : Nat) :
    (scan 0 offset (['\n'].intercalate (tokens.map (·.text.toList)))).map lexeme =
      tokens.map lexeme := by
  induction tokens generalizing offset with
  | nil => rfl
  | cons t tokens ih =>
      have hhead := (hwhole t List.mem_cons_self).scan_text offset
      have hrest : ∀ u ∈ tokens, u.IsWhole := fun u hu => hwhole u (List.mem_cons_of_mem _ hu)
      obtain ⟨hfirst, hclosed⟩ := List.pairwise_cons.mp hclosed
      cases tokens with
      | nil =>
          rw [List.map_singleton, List.intercalate_singleton, hhead]
          rfl
      | cons u tokens =>
          have hlines : ['\n'].intercalate ((t :: u :: tokens).map (·.text.toList)) =
              t.text.toList ++ '\n' :: ['\n'].intercalate ((u :: tokens).map (·.text.toList)) := by
            rw [List.map_cons, List.map_cons, List.intercalate_cons_cons, List.append_assoc]
            rfl
          rw [hlines, scan_append_newline (Nat.zero_le _), List.map_append, ih hrest hclosed, hhead]
          · rfl
          · rw [hhead]
            intro v hv hkind
            obtain rfl := List.mem_singleton.mp hv
            exact hfirst u List.mem_cons_self hkind

/-- **Reading undoes writing.** The tokens of a source, written on lines of their own, are read as
the same tokens: of the same sorts, with the same texts, in the same order. The same messages say
what is wrong with them, in the same order. -/
theorem lex_rendered (source : String) :
    (lex (rendered source)).map lexeme = (lex source).map lexeme ∧
      (Document.read (rendered source)).lexicalFindings.map (·.problem.message) =
        (Document.read source).lexicalFindings.map (·.problem.message) := by
  have hlex : (lex (rendered source)).map lexeme = (lex source).map lexeme := by
    have htext : (rendered source).toList =
        ['\n'].intercalate ((scan 0 0 source.toList).map (·.text.toList)) := by
      rw [rendered, lex, List.dropLast_concat, String.toList_intercalate, List.map_map]
      rfl
    rw [lex, lex, List.map_append, List.map_append, htext,
      map_lexeme_scan_lines (fun t ht => isWhole_of_mem_scan ht) (scan_pairwise_closed 0 0 _)]
    rfl
  have hproblems := Finding.map_problem_filterMap hlex
  refine ⟨hlex, ?_⟩
  have hmessages := congrArg (List.map Problem.message) hproblems
  rw [List.map_map, List.map_map] at hmessages
  exact hmessages

/-- An operator, an infinity and a literal that is not closed, each of which is decided by what
stands behind it. -/
example : rendered "x<-oo$a \"b" = "x\n<-\noo\n$a\n\"b" := by decide +kernel

end GolfAssist.Token
