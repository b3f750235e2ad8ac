import GolfAssist.Proofs.Token.Place

/-!
# Tokens and blanks make up a source

* `Token.Tiling` — a text is cut into tokens: blanks, a token, blanks, a token and so on, up to the
  token that marks the end.
* `Token.scan_tiling` — scanning a text cuts it so.
* `Token.gaps`, `Token.woven` — the text in front of each token, and gaps and tokens put together.
* `Token.lex_partitions` — the tokens of a source lie in it one after the other, what is between
  them is blank, and together they are the source.

A tiling says where a token starts by what stands in front of it, while a token says it by a number.
That the two agree is part of the tiling, so a gap that is cut out of the source by numbers is the
one that the tiling has.
-/

namespace GolfAssist.Token

open Text

/-! ## Tilings -/

/-- The text at `offset` is cut into the tokens, with blanks between them. -/
inductive Tiling : (offset : Nat) → List Char → List Token → Prop where
  /-- Behind the last token there are blanks only. -/
  | last {offset : Nat} {gap : List Char} (hgap : ∀ c ∈ gap, isBlank c) :
      Tiling offset gap [ending (offset + byteLength gap)]
  /-- Behind some blanks stands a token, and the rest is cut behind its end. -/
  | token {offset : Nat} {gap rest : List Char} {t : Token} {tokens : List Token}
      (hgap : ∀ c ∈ gap, isBlank c) (hstart : t.start = offset + byteLength gap)
      (hrest : Tiling t.stop rest tokens) :
      Tiling offset (gap ++ t.text.toList ++ rest) (t :: tokens)

/-- A blank in front only widens the first gap. -/
theorem Tiling.cons_blank {offset : Nat} {cs : List Char} {tokens : List Token} {c : Char}
    (h : Tiling (offset + c.utf8Size) cs tokens) (hc : isBlank c) :
    Tiling offset (c :: cs) tokens := by
  cases h with
  | last hgap =>
      rw [Nat.add_assoc, ← byteLength_cons]
      exact .last (List.forall_mem_cons.mpr ⟨hc, hgap⟩)
  | @token _ gap rest t tokens hgap hstart hrest =>
      refine @Tiling.token offset (c :: gap) rest t tokens ?_ ?_ hrest
      · exact List.forall_mem_cons.mpr ⟨hc, hgap⟩
      · rw [hstart, byteLength_cons, Nat.add_assoc]

/-- Scanning cuts the text behind the characters that it skips. -/
theorem scan_tiling (skip offset : Nat) (cs : List Char) :
    Tiling (offset + byteLength (cs.take skip)) (cs.drop skip)
      (scan skip offset cs ++ [ending (offset + byteLength cs)]) := by
  fun_induction scan skip offset cs with
  | case1 skip offset =>
      rw [List.take_nil, List.drop_nil]
      exact .last (by simp)
  | case2 skip offset c cs ih =>
      rw [List.take_succ_cons, List.drop_succ_cons, byteLength_cons, byteLength_cons,
        ← Nat.add_assoc, ← Nat.add_assoc]
      exact ih
  | case3 offset c cs hblank ih =>
      rw [byteLength_cons, ← Nat.add_assoc]
      exact ih.cons_blank hblank
  | case4 offset c cs hblank kind length hmunch ih =>
      have hstop : Token.stop ⟨kind, offset, String.ofList (c :: cs.take length)⟩ =
          offset + c.utf8Size + byteLength (cs.take length) := by
        rw [stop_ofList, byteLength_cons, Nat.add_assoc]
      rw [← hstop] at ih
      have htile := @Tiling.token offset [] _ _ _ (by simp) (by simp) ih
      rw [String.toList_ofList, List.nil_append, List.cons_append, List.take_append_drop] at htile
      rw [byteLength_cons, ← Nat.add_assoc]
      exact htile

/-! ## Characters outside of tokens -/

/-- A character of two texts put together stands in the first one, or behind it in the second. -/
theorem append_eq_append_cons {x y a b : List Char} {c : Char} (h : x ++ y = a ++ c :: b) :
    (∃ x', x = a ++ c :: x') ∨ ∃ a', a = x ++ a' ∧ y = a' ++ c :: b := by
  rcases List.append_eq_append_iff.mp h with ⟨a', rfl, hy⟩ | ⟨x', rfl, hx⟩
  · exact .inr ⟨a', rfl, hy⟩
  · cases x' with
    | nil => exact .inr ⟨[], by simp, hx.symm⟩
    | cons d x' =>
        obtain ⟨rfl, -⟩ := List.cons.inj hx
        exact .inl ⟨x', rfl⟩

/-- A character of the text that lies in no token is blank. -/
theorem Tiling.isBlank_of_forall_not_mem {offset : Nat} {cs : List Char} {tokens : List Token}
    (h : Tiling offset cs tokens) {a b : List Char} {c : Char} (hcs : cs = a ++ c :: b)
    (hno : ∀ t ∈ tokens, ¬ (t.start ≤ offset + byteLength a ∧ offset + byteLength a < t.stop)) :
    isBlank c := by
  induction h generalizing a with
  | last hgap => exact hgap c (hcs ▸ List.mem_append_right a List.mem_cons_self)
  | @token offset gap rest t tokens hgap hstart _ ih =>
      -- the character stands in the gap, in the token, or behind it
      rw [List.append_assoc] at hcs
      rcases append_eq_append_cons hcs with ⟨gap', rfl⟩ | ⟨a, rfl, hbehind⟩
      · exact hgap c (List.mem_append_right a List.mem_cons_self)
      rcases append_eq_append_cons hbehind with ⟨text', htext⟩ | ⟨a, rfl, hrest⟩
      · have hc := c.utf8Size_pos
        refine absurd ⟨?_, ?_⟩ (hno t List.mem_cons_self)
        · rw [hstart, byteLength_append]
          omega
        · rw [stop, hstart, htext, byteLength_append, byteLength_append, byteLength_cons]
          omega
      · refine ih hrest fun u hu => ?_
        have hu := hno u (List.mem_cons_of_mem _ hu)
        rwa [byteLength_append, byteLength_append, ← Nat.add_assoc, ← Nat.add_assoc, ← hstart] at hu

/-! ## Gaps -/

/-- The parts of a text in front of each of the tokens, the first one from `offset` on and the
others from the end of the token before. -/
def gaps (cs : List Char) : (offset : Nat) → List Token → List (List Char)
  | _, [] => []
  | offset, t :: tokens => (slice? offset t.start cs).getD [] :: gaps cs t.stop tokens

/-- Gaps and tokens by turns, as one text. -/
def woven (gaps : List (List Char)) (tokens : List Token) : List Char :=
  (List.zipWith (fun gap t => gap ++ t.text.toList) gaps tokens).flatten

/-- The gaps that the numbers of the tokens cut out of a text are those of its tiling: they are
blank, and together with the tokens they make up the text. -/
theorem Tiling.woven_gaps {offset : Nat} {cs : List Char} {tokens : List Token}
    (h : Tiling offset cs tokens) {front : List Char} (hfront : byteLength front = offset) :
    (∀ gap ∈ gaps (front ++ cs) offset tokens, ∀ c ∈ gap, isBlank c) ∧
      woven (gaps (front ++ cs) offset tokens) tokens = cs := by
  induction h generalizing front with
  | @last offset gap hgap =>
      have hslice : slice? offset (offset + byteLength gap) (front ++ gap) = some gap :=
        slice?_eq_some_iff.mpr ⟨front, [], by simp, hfront, rfl⟩
      simpa [gaps, woven, ending, hslice] using hgap
  | @token offset gap rest t tokens hgap hstart _ ih =>
      have hslice : slice? offset t.start (front ++ (gap ++ t.text.toList ++ rest)) = some gap :=
        slice?_eq_some_iff.mpr ⟨front, t.text.toList ++ rest, by simp, hfront, hstart.symm⟩
      have hstop : byteLength (front ++ gap ++ t.text.toList) = t.stop := by
        rw [byteLength_append, byteLength_append, hfront, stop, hstart]
      obtain ⟨hblank, hwoven⟩ := ih hstop
      have hassoc : front ++ gap ++ t.text.toList ++ rest =
          front ++ (gap ++ t.text.toList ++ rest) := by simp
      rw [hassoc] at hblank hwoven
      rw [gaps, hslice, Option.getD_some]
      refine ⟨List.forall_mem_cons.mpr ⟨hgap, hblank⟩, ?_⟩
      rw [woven, List.zipWith_cons_cons, List.flatten_cons]
      exact congrArg _ hwoven

/-! ## Sources -/

/-- The tokens of a source cut it. -/
theorem lex_tiling (source : String) : Tiling 0 source.toList (lex source) := by
  have h := scan_tiling 0 0 source.toList
  simp only [List.take_zero, List.drop_zero, byteLength_nil, Nat.zero_add] at h
  exact h

/-- **The tokens and the blanks make up the source.** The last token marks the end, and no other
does. The others are not empty, begin and end between characters and have the text that stands
there. Tokens come in order and do not overlap. A character that lies in none of them is blank, and
so the gaps are; gaps and tokens put together are the source. -/
theorem lex_partitions (source : String) :
    ∃ tokens last, lex source = tokens ++ [last] ∧
      (last.kind = .eof ∧ last.span = ⟨byteLength source.toList, byteLength source.toList⟩) ∧
      (∀ t ∈ tokens, t.kind ≠ .eof ∧ t.start < t.stop ∧
        isBoundary t.start source.toList ∧ isBoundary t.stop source.toList ∧
        slice? t.start t.stop source.toList = some t.text.toList) ∧
      ((lex source).Pairwise fun a b => a.stop ≤ b.start) ∧
      (∀ a c b, source.toList = a ++ c :: b →
        (∀ t ∈ tokens, ¬ (t.start ≤ byteLength a ∧ byteLength a < t.stop)) → isBlank c) ∧
      (∀ gap ∈ gaps source.toList 0 (lex source), ∀ c ∈ gap, isBlank c) ∧
      woven (gaps source.toList 0 (lex source)) (lex source) = source.toList := by
  have hgaps := @Tiling.woven_gaps _ _ _ (lex_tiling source) [] rfl
  refine ⟨scan 0 0 source.toList, ending (byteLength source.toList), rfl, ⟨rfl, rfl⟩, ?_,
    lex_pairwise source, ?_, hgaps⟩
  · intro t ht
    have hmem : t ∈ lex source := List.mem_append_left _ ht
    obtain ⟨hstart, hstop⟩ := isBoundary_of_mem_lex hmem
    exact ⟨kind_ne_eof_of_mem_scan ht, start_lt_stop_of_mem_scan ht, hstart, hstop,
      slice?_of_mem_lex hmem⟩
  · intro a c b hsource hno
    refine (lex_tiling source).isBlank_of_forall_not_mem hsource fun t ht => ?_
    rw [Nat.zero_add]
    rcases List.mem_append.mp ht with ht | ht
    · exact hno t ht
    · obtain rfl := List.mem_singleton.mp ht
      simp [ending, stop]

/-- The blank between a word and a comment takes two bytes, and so does the character inside the
comment. -/
theorem lex_partitions_wide :
    ⟨.lineComment, 3, "%é"⟩ ∈ lex "x\u00a0%é" ∧
      (3 < 6 ∧ isBoundary 3 "x\u00a0%é".toList ∧ isBoundary 6 "x\u00a0%é".toList ∧
        slice? 3 6 "x\u00a0%é".toList = some ['%', 'é']) ∧
      isBlank '\u00a0' ∧
      woven (gaps "x\u00a0%é".toList 0 (lex "x\u00a0%é")) (lex "x\u00a0%é") =
        ['x', '\u00a0', '%', 'é'] := by
  obtain ⟨tokens, last, hlex, -, htokens, -, hblank, -, hwoven⟩ := lex_partitions "x\u00a0%é"
  obtain ⟨rfl, -⟩ : tokens = [⟨.word, 0, "x"⟩, ⟨.lineComment, 3, "%é"⟩] ∧ [last] = [ending 6] :=
    List.append_inj' hlex.symm rfl
  obtain ⟨-, hlt, hstart, hstop, htext⟩ := htokens ⟨.lineComment, 3, "%é"⟩ (by simp)
  refine ⟨hlex ▸ by simp, ⟨hlt, hstart, hstop, htext⟩, ?_, hwoven⟩
  exact hblank ['x'] '\u00a0' ['%', 'é'] rfl (by decide)

end GolfAssist.Token
