import GolfAssist.Proofs.Token.Munch

/-!
# Line breaks between tokens

* `Token.munch_length_le` — no token reaches behind the text it is taken from.
* `Token.scan_append_newline` — a line break parts a text: the tokens of both parts are the tokens
  of the whole, if the literals of the first part are closed.
* `Token.lex_append_newline` — so the tokens of two sources, one below the other, are those of the
  first one and those of the second one, moved.

A comment ends at the break by itself. A literal goes on over breaks, so it has to be closed before.
-/

namespace GolfAssist.Token

open Text Lexicon

/-! ## Lengths of tokens -/

/-- A literal that a first part closes is closed in the whole. -/
theorem closesLiteral_append {a : List Char} (h : closesLiteral a) (x : List Char) :
    closesLiteral (a ++ x) := by
  induction a using literal_induct with
  | nil => cases h
  | quote => rfl
  | backslash => cases h
  | escape e cs ih => exact ih h
  | other c cs hq hb ih =>
      rw [closesLiteral_cons hq hb] at h
      rw [List.cons_append, closesLiteral_cons hq hb, ih h]

/-- The longest alias at the front of a text is an alias that the text begins with. -/
theorem mem_of_symbolicAlias? {cs : List Char} {sign : String}
    (h : symbolicAlias? cs = some sign) : sign ∈ symbolicAliases ∧ sign.toList <+: cs := by
  have hfold : ∀ (names : List String) (best : Option String),
      names.foldl (fun best name => some (best.elim name (longer · name))) best = some sign →
        best = some sign ∨ sign ∈ names := by
    intro names
    induction names with
    | nil => exact fun best hbest => .inl hbest
    | cons n names ih =>
        intro best hbest
        rcases ih _ hbest with hname | hmem
        · refine (em (best = some sign)).imp_right fun hne => ?_
          have hn : sign = n := by
            rcases best with _ | b
            · simpa using hname.symm
            · unfold longer at hname
              simp only [Option.elim_some] at hname
              split at hname <;> simp_all
          exact hn ▸ List.mem_cons_self
        · exact .inr (List.mem_cons_of_mem _ hmem)
  rcases hfold _ _ h with hnone | hmem
  · cases hnone
  · obtain ⟨hsign, hfirst⟩ := List.mem_filter.mp hmem
    exact ⟨hsign, List.isPrefixOf_iff_prefix.mp hfirst⟩

/-- The longest alias at the front of a text is made of the first characters of the text. -/
theorem cons_take_of_symbolicAlias? {c : Char} {cs : List Char} {sign : String}
    (h : symbolicAlias? (c :: cs) = some sign) : c :: cs.take (sign.length - 1) = sign.toList := by
  obtain ⟨hmem, hfirst⟩ := mem_of_symbolicAlias? h
  have hne : ∀ sign ∈ symbolicAliases, sign.length ≠ 0 := by decide
  obtain ⟨length, hlength⟩ := Nat.exists_eq_succ_of_ne_zero (hne sign hmem)
  rw [List.prefix_iff_eq_take.mp hfirst, String.length_toList, hlength, List.take_succ_cons]
  rfl

/-- A quote takes all up to the closing one. -/
theorem munch_quote (cs : List Char) : munch '"' cs = (.string, literalLength cs) := rfl

/-- A literal does not reach behind the text. -/
theorem literalLength_le (cs : List Char) : literalLength cs ≤ cs.length := by
  fun_induction literalLength cs <;> simp_all

/-- No rule reaches behind the text. -/
theorem Rule.length_le {c : Char} {cs : List Char} {kind : Kind} {length : Nat}
    (h : Rule c cs kind length) : length ≤ cs.length := by
  have hrun : ∀ p : Char → Bool, run p cs ≤ cs.length :=
    fun p => (List.takeWhile_prefix p).length_le
  cases h with
  | comment => exact hrun _
  | name => exact hrun _
  | literal => exact literalLength_le cs
  | punctuation => exact Nat.zero_le _
  | digits => exact hrun _
  | negative => exact hrun _
  | negativeInfinity hc hoo =>
      rw [startsInfinity_eq, Bool.and_eq_true] at hoo
      exact (List.isPrefixOf_iff_prefix.mp hoo.1).length_le
  | infinity => exact hrun _
  | word => exact hrun _
  | operator hc hneg ha =>
      have hlength := (mem_of_symbolicAlias? ha).2.length_le
      rw [String.length_toList, List.length_cons] at hlength
      exact Nat.sub_le_of_le_add hlength
  | unknown => exact Nat.zero_le _

/-- No token reaches behind the text. -/
theorem munch_length_le (c : Char) (cs : List Char) : (munch c cs).2 ≤ cs.length :=
  (munch_rule c cs).length_le

/-! ## Breaks -/

/-- A line break is a bar. -/
theorem isBar_newline : isBar '\n' := by decide

/-- **A line break parts a text.** If the literals in front of it are closed, the tokens of a text
are those of the part in front of the break and those of the part behind it. -/
theorem scan_append_newline {skip offset : Nat} {a : List Char} (hskip : skip ≤ a.length)
    (hclosed : ∀ t ∈ scan skip offset a, t.kind = .string → closesLiteral t.text.toList.tail)
    (b : List Char) :
    scan skip offset (a ++ '\n' :: b) =
      scan skip offset a ++ scan 0 (offset + byteLength a + 1) b := by
  induction a generalizing skip offset with
  | nil =>
      obtain rfl := Nat.le_zero.mp hskip
      rfl
  | cons c a ih =>
      rw [byteLength_cons, ← Nat.add_assoc]
      rcases skip with _ | skip
      · by_cases hblank : isBlank c
        · rw [scan, if_pos hblank] at hclosed ⊢
          rw [List.cons_append, scan, if_pos hblank]
          exact ih (Nat.zero_le _) hclosed
        · rw [scan_cons hblank] at hclosed
          have hquote : c = '"' → closesLiteral a := by
            rintro rfl
            have hhead := hclosed _ List.mem_cons_self rfl
            rw [String.toList_ofList, List.tail_cons, munch_quote] at hhead
            rw [← List.take_append_drop (literalLength a) a]
            exact closesLiteral_append hhead _
          have hmunch : munch c (a ++ '\n' :: b) = munch c a :=
            munch_append isBar_newline (fun _ => .inl (by simp)) hquote
          have hlength := munch_length_le c a
          rw [List.cons_append, scan_cons hblank, scan_cons hblank, hmunch,
            List.take_append_of_le_length hlength, List.cons_append]
          rw [ih hlength fun t ht => hclosed t (List.mem_cons_of_mem _ ht)]
      · exact ih (Nat.le_of_succ_le_succ hskip) hclosed

/-- The characters of two sources, one below the other. -/
theorem toList_append_newline (source below : String) :
    (source ++ "\n" ++ below).toList = source.toList ++ '\n' :: below.toList := by
  rw [String.toList_append, String.toList_append, List.append_assoc]
  rfl

/-- The length of two sources, one below the other. -/
theorem byteLength_append_newline (source below : String) :
    byteLength (source ++ "\n" ++ below).toList =
      byteLength source.toList + 1 + byteLength below.toList := by
  rw [toList_append_newline, byteLength_append, byteLength_cons, Nat.add_assoc]
  rfl

/-- **Two sources, one below the other.** If the literals of the first one are closed, the tokens
are its tokens and those of the second one, moved behind the break. -/
theorem lex_append_newline {source : String}
    (hclosed : ∀ t ∈ scan 0 0 source.toList, t.kind = .string → closesLiteral t.text.toList.tail)
    (below : String) :
    lex (source ++ "\n" ++ below) = scan 0 0 source.toList ++
      (lex below).map (movedBy (byteLength source.toList + 1)) := by
  rw [lex, lex, byteLength_append_newline, toList_append_newline,
    scan_append_newline (Nat.zero_le _) hclosed, List.append_assoc, List.map_append, Nat.zero_add,
    ← scan_add, Nat.zero_add, Nat.add_comm _ (byteLength below.toList)]
  rfl

end GolfAssist.Token
