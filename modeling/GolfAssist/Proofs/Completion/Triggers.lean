import GolfAssist.Proofs.Completion.Lookbehind

/-!
# Classification by a table of patterns

* `Completion.Piece`, `Completion.accepts`, `Completion.find?` — patterns that a text matches up to
  its end, and the leftmost match of a pattern in a text.
* `Completion.Window.before?` — the part of a source that is looked at, cut out by byte offsets.
* `Completion.Trigger`, `Completion.triggers` — the rules in their order: a pattern, and what a
  match of it says about the cursor. The first pattern that matches decides.
* `Completion.classify_eq_decided` — a cursor is classified as the table says.

The classification of a cursor goes backwards over the characters in front of it, once. The table
says the same by itself: it does not matter to a rule what the others are looking for, and where the
replaced text begins is found by a pattern of its own. What connects the two is that in front of a
word stands no character of words, so a pattern that ends in a word can begin in few places
(`eq_word_of_suffix`), and the leftmost match is the longest end of the text that the pattern
accepts (`find?_eq_some_iff`).
-/

namespace GolfAssist.Completion

open Text Lexicon

/-! ## Patterns -/

/-- A piece of a pattern. -/
inductive Piece where
  /-- The character. -/
  | one (c : Char)
  /-- The character, or nothing. -/
  | optional (c : Char)
  /-- Any number of characters of a class. -/
  | many (p : Char → Bool)

namespace Piece

/-- A text that the piece stands for. -/
def Spells : Piece → List Char → Prop
  | .one c, cs => cs = [c]
  | .optional c, cs => cs = [] ∨ cs = [c]
  | .many p, cs => ∀ c ∈ cs, p c

/-- The text begins with the character, and the rest of it is taken by `next`. -/
def thenOne (c : Char) (next : List Char → Bool) : List Char → Bool
  | [] => false
  | x :: xs => x == c && next xs

/-- The text begins with any number of characters of the class, and the rest of it is taken by
`next`. -/
def thenMany (p : Char → Bool) (next : List Char → Bool) : List Char → Bool
  | [] => next []
  | x :: xs => p x && thenMany p next xs || next (x :: xs)

/-- The text begins with what the piece stands for, and the rest of it is taken by `next`. -/
def andThen : Piece → (List Char → Bool) → List Char → Bool
  | .one c, next, cs => thenOne c next cs
  | .optional c, next, cs => thenOne c next cs || next cs
  | .many p, next, cs => thenMany p next cs

/-- The text begins with one character. -/
theorem thenOne_iff {c : Char} {next : List Char → Bool} {cs : List Char} :
    thenOne c next cs ↔ ∃ rest, cs = c :: rest ∧ next rest := by
  cases cs with
  | nil => simp [thenOne]
  | cons x xs =>
      rw [thenOne, Bool.and_eq_true, beq_iff_eq]
      constructor
      · rintro ⟨rfl, hrest⟩
        exact ⟨xs, rfl, hrest⟩
      · rintro ⟨rest, hcs, hrest⟩
        obtain ⟨rfl, rfl⟩ := List.cons.inj hcs
        exact ⟨rfl, hrest⟩

/-- The text begins with characters of a class. -/
theorem thenMany_iff {p : Char → Bool} {next : List Char → Bool} {cs : List Char} :
    thenMany p next cs ↔ ∃ run rest, cs = run ++ rest ∧ (∀ c ∈ run, p c) ∧ next rest := by
  induction cs with
  | nil =>
      rw [thenMany]
      constructor
      · intro hrest
        exact ⟨[], [], rfl, by simp, hrest⟩
      · rintro ⟨run, rest, hcs, -, hrest⟩
        rwa [(List.append_eq_nil_iff.mp hcs.symm).2] at hrest
  | cons x xs ih =>
      rw [thenMany, Bool.or_eq_true, Bool.and_eq_true, ih]
      constructor
      · rintro (⟨hx, run, rest, rfl, hrun, hrest⟩ | hrest)
        · exact ⟨x :: run, rest, rfl, by simpa [hx] using hrun, hrest⟩
        · exact ⟨[], x :: xs, rfl, by simp, hrest⟩
      · rintro ⟨run, rest, hcs, hrun, hrest⟩
        cases run with
        | nil => exact .inr (hcs ▸ hrest)
        | cons y run =>
            obtain ⟨rfl, rfl⟩ := List.cons.inj hcs
            rw [List.forall_mem_cons] at hrun
            exact .inl ⟨hrun.1, run, rest, rfl, hrun.2, hrest⟩

/-- The text is what the piece stands for, and a rest that is taken by `next`. -/
theorem andThen_iff {piece : Piece} {next : List Char → Bool} {cs : List Char} :
    piece.andThen next cs ↔ ∃ a b, cs = a ++ b ∧ piece.Spells a ∧ next b := by
  cases piece with
  | one c =>
      refine thenOne_iff.trans ⟨?_, ?_⟩
      · rintro ⟨rest, rfl, hrest⟩
        exact ⟨[c], rest, rfl, rfl, hrest⟩
      · rintro ⟨a, rest, rfl, rfl, hrest⟩
        exact ⟨rest, rfl, hrest⟩
  | optional c =>
      rw [andThen, Bool.or_eq_true, thenOne_iff]
      constructor
      · rintro (⟨rest, rfl, hrest⟩ | hrest)
        · exact ⟨[c], rest, rfl, .inr rfl, hrest⟩
        · exact ⟨[], cs, rfl, .inl rfl, hrest⟩
      · rintro ⟨a, rest, rfl, rfl | rfl, hrest⟩
        · exact .inr hrest
        · exact .inl ⟨rest, rfl, hrest⟩
  | many p => exact thenMany_iff

end Piece

/-- The text matches the pieces one after the other, up to its end. -/
def accepts (pattern : List Piece) : List Char → Bool := pattern.foldr Piece.andThen List.isEmpty

/-- Behind the last piece, nothing is left. -/
theorem accepts_nil_iff {cs : List Char} : accepts [] cs ↔ cs = [] := List.isEmpty_iff

/-- A text matches the first piece, and then the others. -/
theorem accepts_cons_iff {piece : Piece} {pattern : List Piece} {cs : List Char} :
    accepts (piece :: pattern) cs ↔
      ∃ a b, cs = a ++ b ∧ piece.Spells a ∧ accepts pattern b :=
  Piece.andThen_iff

/-- The leftmost match of a pattern, and the text in front of it. -/
def find? (pattern : List Piece) : List Char → Option (List Char × List Char)
  | [] => if accepts pattern [] then some ([], []) else none
  | c :: cs =>
    if accepts pattern (c :: cs) then some ([], c :: cs)
    else (find? pattern cs).map fun (before, found) => (c :: before, found)

/-- What is found is an end of the text, the longest one that is accepted. -/
theorem isLongestSuffix_of_find? {pattern : List Piece} {cs before found : List Char}
    (h : find? pattern cs = some (before, found)) :
    cs = before ++ found ∧ IsLongestSuffix (accepts pattern ·) cs found := by
  induction cs generalizing before with
  | nil =>
      rw [find?] at h
      split at h
      · cases h
        exact ⟨rfl, List.suffix_refl _, ‹_›, fun s hs _ => hs.length_le⟩
      · cases h
  | cons c cs ih =>
      rw [find?] at h
      split at h
      · cases h
        exact ⟨rfl, List.suffix_refl _, ‹_›, fun s hs _ => hs.length_le⟩
      · rename_i hwhole
        obtain ⟨⟨rest, _⟩, hfind, hmap⟩ := Option.map_eq_some_iff.mp h
        cases hmap
        obtain ⟨rfl, hlongest⟩ := ih hfind
        refine ⟨rfl, hlongest.isSuffix.trans (List.suffix_cons _ _), hlongest.holds, ?_⟩
        intro s hs haccepts
        rcases List.suffix_cons_iff.mp hs with rfl | hs
        · exact absurd haccepts hwhole
        · exact hlongest.longest s hs haccepts

/-- Nothing is found if no end of the text is accepted. -/
theorem find?_eq_none_iff {pattern : List Piece} {cs : List Char} :
    find? pattern cs = none ↔ ∀ s, s <:+ cs → ¬ accepts pattern s := by
  induction cs with
  | nil => simp [find?]
  | cons c cs ih =>
      rw [find?]
      split
      · rename_i hwhole
        exact iff_of_false (by simp) fun h => h _ (List.suffix_refl _) hwhole
      · rename_i hwhole
        rw [Option.map_eq_none_iff, ih]
        constructor
        · intro h s hs
          rcases List.suffix_cons_iff.mp hs with rfl | hs
          · exact hwhole
          · exact h s hs
        · exact fun h s hs => h s (hs.trans (List.suffix_cons _ _))

/-- **The leftmost match is the longest end of the text that is accepted.** -/
theorem find?_eq_some_iff {pattern : List Piece} {cs before found : List Char} :
    find? pattern cs = some (before, found) ↔
      cs = before ++ found ∧ IsLongestSuffix (accepts pattern ·) cs found := by
  refine ⟨isLongestSuffix_of_find?, ?_⟩
  rintro ⟨hcs, hfound⟩
  cases hfind : find? pattern cs with
  | none => exact absurd hfound.holds (find?_eq_none_iff.mp hfind _ hfound.isSuffix)
  | some m =>
      obtain ⟨before', found'⟩ := m
      obtain ⟨hcs', hfound'⟩ := isLongestSuffix_of_find? hfind
      obtain rfl := hfound.unique hfound'
      obtain rfl := List.append_cancel_right (hcs.symm.trans hcs')
      rfl

/-- The longest end of the text that is accepted, is found. -/
theorem exists_find?_eq_some {pattern : List Piece} {cs found : List Char}
    (h : IsLongestSuffix (accepts pattern ·) cs found) :
    ∃ before, cs = before ++ found ∧ find? pattern cs = some (before, found) := by
  obtain ⟨before, hcs⟩ := h.isSuffix
  exact ⟨before, hcs.symm, find?_eq_some_iff.mpr ⟨hcs.symm, h⟩⟩

/-! ## Windows by offsets -/

/-- A part of a source, and where it starts. -/
structure Window where
  /-- The characters of the part. -/
  text : List Char
  /-- The offset of the first of them. -/
  start : Nat

/-- The offset of the last occurrence of the character. -/
def rfind? (c : Char) : List Char → Option Nat
  | [] => none
  | x :: xs =>
    match rfind? c xs with
    | some offset => some (x.utf8Size + offset)
    | none => if x = c then some 0 else none

/-- The first boundary at the offset or behind it. -/
def boundaryFrom (cs : List Char) (offset : Nat) : Nat :=
  if isBoundary offset cs ∨ byteLength cs ≤ offset then offset else boundaryFrom cs (offset + 1)
termination_by byteLength cs - offset

/-- The part of the line in front of the cursor that is looked at. It begins at most `lookbehind`
bytes before the cursor, or at the next boundary behind that. There is none if an end of it falls
inside a character. -/
def Window.before? (cs : List Char) (cursor lookbehind : Nat) : Option Window := do
  let front ← slice? 0 cursor cs
  let lineStart := (rfind? '\n' front).elim 0 (· + 1)
  let start := boundaryFrom cs (max lineStart (cursor - lookbehind))
  let text ← slice? start cursor cs
  some ⟨text, start⟩

/-- Where no occurrence is found, there is none. -/
theorem not_mem_of_rfind?_eq_none {c : Char} {cs : List Char} (h : rfind? c cs = none) :
    c ∉ cs := by
  induction cs with
  | nil => exact List.not_mem_nil
  | cons x xs ih =>
      rw [rfind?] at h
      split at h
      · cases h
      · rename_i hxs
        split at h
        · cases h
        · rename_i hx
          exact List.not_mem_cons_of_ne_of_not_mem (fun hc => hx hc.symm) (ih hxs)

/-- Behind the last occurrence of a character it does not occur. -/
theorem exists_split_of_rfind? {c : Char} {cs : List Char} {offset : Nat}
    (h : rfind? c cs = some offset) :
    ∃ a b, cs = a ++ c :: b ∧ byteLength a = offset ∧ c ∉ b := by
  induction cs generalizing offset with
  | nil => cases h
  | cons x xs ih =>
      rw [rfind?] at h
      split at h
      · cases h
        obtain ⟨a, b, rfl, rfl, hb⟩ := ih ‹_›
        exact ⟨x :: a, b, rfl, rfl, hb⟩
      · rename_i hxs
        split at h
        · rename_i hx
          cases h
          exact ⟨[], xs, by rw [hx]; rfl, rfl, not_mem_of_rfind?_eq_none hxs⟩
        · cases h

/-- The last line of a text is its longest end without a line break, and begins behind the last line
break. -/
theorem exists_line (front : List Char) :
    ∃ a line, front = a ++ line ∧ byteLength a = (rfind? '\n' front).elim 0 (· + 1) ∧
      IsLongestSuffix ('\n' ∉ ·) front line := by
  cases hfind : rfind? '\n' front with
  | none =>
      refine ⟨[], front, rfl, rfl, List.suffix_refl _, not_mem_of_rfind?_eq_none hfind, ?_⟩
      exact fun s hs _ => hs.length_le
  | some offset =>
      obtain ⟨a, line, rfl, rfl, hline⟩ := exists_split_of_rfind? hfind
      have hlength : byteLength (a ++ ['\n']) = byteLength a + 1 := byteLength_append _ _
      refine ⟨a ++ ['\n'], line, by simp, hlength, ⟨a ++ ['\n'], by simp⟩, hline, ?_⟩
      intro s hs hbreak
      -- a longer end would have the line break in it
      by_contra hlt
      have hsuffix : '\n' :: line <:+ s :=
        List.suffix_of_suffix_length_le (List.suffix_append _ _) hs (Nat.lt_of_not_le hlt)
      exact hbreak (hsuffix.subset List.mem_cons_self)

/-- A boundary is not past the end. -/
theorem le_byteLength_of_isBoundary {cs : List Char} {offset : Nat} (h : isBoundary offset cs) :
    offset ≤ byteLength cs := by
  obtain ⟨a, b, rfl, rfl⟩ := isBoundary_iff.mp h
  rw [byteLength_append]
  exact Nat.le_add_right _ _

/-- In front of a boundary, the first one behind an offset is a boundary, and comes before all
others behind the offset. -/
theorem boundaryFrom_spec {cs : List Char} {offset stop : Nat} (hstop : isBoundary stop cs)
    (hle : offset ≤ stop) :
    isBoundary (boundaryFrom cs offset) cs ∧ offset ≤ boundaryFrom cs offset ∧
      ∀ q, isBoundary q cs → offset ≤ q → boundaryFrom cs offset ≤ q := by
  fun_induction boundaryFrom cs offset with
  | case1 offset h =>
      have hboundary : isBoundary offset cs := by
        rcases h with h | h
        · exact h
        · have hstop' := le_byteLength_of_isBoundary hstop
          rwa [Nat.le_antisymm hle (hstop'.trans h)]
      exact ⟨hboundary, Nat.le_refl _, fun q _ hq => hq⟩
  | case2 offset h ih =>
      -- the offset itself is no boundary, so all others are behind it
      have hnext : ∀ q, isBoundary q cs → offset ≤ q → offset + 1 ≤ q := by
        intro q hq hoq
        rcases Nat.eq_or_lt_of_le hoq with rfl | hlt
        · exact absurd (.inl hq) h
        · exact hlt
      obtain ⟨hboundary, hfrom, hfirst⟩ := ih (hnext stop hstop hle)
      exact ⟨hboundary, Nat.le_of_succ_le hfrom, fun q hq hoq => hfirst q hq (hnext q hq hoq)⟩

/-- What follows the first boundary behind the start of the line and behind the bytes that are not
looked at, is the longest end of the text that stays in the line and in the number of bytes. -/
theorem isLongestSuffix_of_boundaryFrom {front after a line b text : List Char} {lookbehind : Nat}
    (hline : IsLongestSuffix ('\n' ∉ ·) front line) (ha : front = a ++ line)
    (hb : front = b ++ text)
    (hstart : byteLength b = boundaryFrom (front ++ after)
      (max (byteLength a) (byteLength front - lookbehind))) :
    IsLongestSuffix (fun s => '\n' ∉ s ∧ byteLength s ≤ lookbehind) front text := by
  have hlengthA : byteLength front = byteLength a + byteLength line := by
    rw [ha, byteLength_append]
  have hlengthB : byteLength front = byteLength b + byteLength text := by
    rw [hb, byteLength_append]
  have hle : max (byteLength a) (byteLength front - lookbehind) ≤ byteLength front := by omega
  obtain ⟨-, hfrom, hfirst⟩ :=
    boundaryFrom_spec (isBoundary_iff.mpr ⟨front, after, rfl, rfl⟩) hle
  rw [← hstart] at hfrom hfirst
  refine ⟨⟨b, hb.symm⟩, ⟨?_, by omega⟩, ?_⟩
  · obtain ⟨e, -, he⟩ := exists_eq_append_of_byteLength_le (hb.symm.trans ha) (by omega)
    exact fun hmem => hline.holds (he ▸ List.mem_append_right e hmem)
  · rintro s ⟨q, hq⟩ ⟨hbreak, hbytes⟩
    have hlengthQ : byteLength front = byteLength q + byteLength s := by
      rw [← hq, byteLength_append]
    -- in the line of the text, a part does not begin before the line
    obtain ⟨more, hmore⟩ : s <:+ line :=
      List.suffix_of_suffix_length_le ⟨q, hq⟩ hline.isSuffix (hline.longest s ⟨q, hq⟩ hbreak)
    have hlengthS : byteLength line = byteLength more + byteLength s := by
      rw [← hmore, byteLength_append]
    have hqle := hfirst (byteLength q)
      (isBoundary_iff.mpr ⟨q, s ++ after, by rw [← List.append_assoc, hq], rfl⟩) (by omega)
    obtain ⟨e, -, rfl⟩ := exists_eq_append_of_byteLength_le (hq.trans hb) hqle
    exact (List.suffix_append e s).length_le

/-- **The window by offsets is the window by characters.** At a cursor that falls between two
characters, no end of it falls inside one. -/
theorem Window.before?_eq (front after : List Char) (lookbehind : Nat) :
    Window.before? (front ++ after) (byteLength front) lookbehind =
      some ⟨(window lookbehind front.reverse).reverse,
        byteLength front - byteLength (window lookbehind front.reverse).reverse⟩ := by
  obtain ⟨a, line, ha, hlineStart, hline⟩ := exists_line front
  have hcursor : isBoundary (byteLength front) (front ++ after) :=
    isBoundary_iff.mpr ⟨front, after, rfl, rfl⟩
  have hle : max (byteLength a) (byteLength front - lookbehind) ≤ byteLength front := by
    have hlength : byteLength front = byteLength a + byteLength line := by
      rw [ha, byteLength_append]
    omega
  obtain ⟨hboundary, -, hfirst⟩ := boundaryFrom_spec hcursor hle
  obtain ⟨b, rest, hsplit, hstart⟩ := isBoundary_iff.mp hboundary
  obtain ⟨text, hb, -⟩ :=
    exists_eq_append_of_byteLength_le hsplit (hstart ▸ hfirst _ hcursor hle)
  obtain rfl := (isLongestSuffix_of_boundaryFrom hline ha hb hstart).unique
    (isLongestSuffix_window lookbehind front)
  have hfront : slice? 0 (byteLength front) (front ++ after) = some front :=
    slice?_zero_eq_some_iff.mpr ⟨after, rfl, rfl⟩
  have hlength : byteLength front =
      byteLength b + byteLength (window lookbehind front.reverse).reverse := by
    rw [← byteLength_append, ← hb]
  have htext : slice? (byteLength b) (byteLength front) (front ++ after) =
      some (window lookbehind front.reverse).reverse :=
    slice?_eq_some_iff.mpr ⟨b, after, by rw [← hb], rfl, hlength.symm⟩
  simp only [Window.before?, hfront, Option.bind_eq_bind, Option.bind_some, ← hlineStart, ← hstart,
    htext]
  rw [hlength, Nat.add_sub_cancel]

/-! ## The table -/

/-- The sigil, and a word. -/
def variablePattern : List Piece := [.one '$', .many isWordChar]

/-- A colon, then a blank and a parenthesis that need not be there, and a word. -/
def annotationPattern : List Piece := [.one ':', .optional ' ', .optional '(', .many isWordChar]

/-- A parenthesis that need not be there, and a word. -/
def typePattern : List Piece := [.optional '(', .many isWordChar]

/-- A word. -/
def wordPattern : List Piece := [.many isWordChar]

/-- What is asked about a cursor. -/
structure Request where
  /-- The tree that is asked about types. -/
  tree : Node
  /-- The text in front of the cursor that is looked at. -/
  window : Window
  /-- The offset of the cursor. -/
  cursor : Nat
  /-- The user has asked for candidates. -/
  explicit : Bool

namespace Request

/-- Where a match starts in the source, behind the given part of the window. -/
def offset (request : Request) (before : List Char) : Nat :=
  request.window.start + byteLength before

/-- The cursor is inside a type in parentheses. -/
def inType (request : Request) : Bool :=
  (request.tree.resolve request.cursor .before).within .typeSexpr

/-- Behind a sigil, the name of a variable is replaced with its sigil. -/
def variableReference (request : Request) (before _found : List Char) : Option Classification :=
  some ⟨.variableReference, request.offset before⟩

/-- Behind a colon, text is replaced from the parenthesis on, which is not where the match of the
rule starts. -/
def typeAnnotation (request : Request) (before _found : List Char) : Option Classification :=
  match find? typePattern request.window.text with
  | some (kept, _) => some ⟨.typePosition, request.offset kept⟩
  | none => some ⟨.typePosition, request.offset before⟩

/-- A word is replaced as a whole. If there is none, nothing is offered unless a parenthesis, a type
or the user asks for it. -/
def wordFallback (request : Request) (before found : List Char) : Option Classification :=
  if found = [] ∧ ¬ ['('] <:+ request.window.text ∧ ¬ request.inType ∧ ¬ request.explicit then none
  else some ⟨if request.inType then .typePosition else .general, request.offset before⟩

end Request

/-- A rule: if its pattern matches, a request is answered from the match and the text in front of
it. -/
structure Trigger where
  /-- What the window has to end in. -/
  pattern : List Piece
  /-- The answer. -/
  answer : Request → (before found : List Char) → Option Classification

/-- The rules in their order. -/
def triggers : List Trigger :=
  [⟨variablePattern, Request.variableReference⟩, ⟨annotationPattern, Request.typeAnnotation⟩,
    ⟨wordPattern, Request.wordFallback⟩]

/-- The answer of the first rule whose pattern matches. -/
def decided : List Trigger → Request → Option Classification
  | [], _ => none
  | rule :: rules, request =>
    match find? rule.pattern request.window.text with
    | some (before, found) => rule.answer request before found
    | none => decided rules request

section Decided

variable {pattern : List Piece} {answer : Request → List Char → List Char → Option Classification}
  {rules : List Trigger} {request : Request}

/-- A rule whose pattern matches, answers. -/
theorem decided_of_find? {before found : List Char}
    (h : find? pattern request.window.text = some (before, found)) :
    decided (⟨pattern, answer⟩ :: rules) request = answer request before found := by
  rw [decided, h]

/-- A rule whose pattern does not match, is passed over. -/
theorem decided_of_find?_eq_none (h : find? pattern request.window.text = none) :
    decided (⟨pattern, answer⟩ :: rules) request = decided rules request := by
  rw [decided, h]

end Decided

/-! ## What the patterns accept -/

section Patterns

variable {s near word : List Char}

/-- A word is accepted. -/
theorem accepts_wordPattern_iff : accepts wordPattern s ↔ ∀ c ∈ s, isWordChar c := by
  rw [wordPattern, accepts_cons_iff]
  constructor
  · rintro ⟨a, b, rfl, ha, hb⟩
    rw [accepts_nil_iff.mp hb, List.append_nil]
    exact ha
  · exact fun h => ⟨s, [], (List.append_nil s).symm, h, accepts_nil_iff.mpr rfl⟩

/-- A sigil and a word are accepted. -/
theorem accepts_variablePattern_iff :
    accepts variablePattern s ↔ ∃ w, s = '$' :: w ∧ ∀ c ∈ w, isWordChar c := by
  rw [variablePattern, accepts_cons_iff]
  constructor
  · rintro ⟨a, w, rfl, rfl, hw⟩
    exact ⟨w, rfl, accepts_wordPattern_iff.mp hw⟩
  · rintro ⟨w, rfl, hw⟩
    exact ⟨['$'], w, rfl, rfl, accepts_wordPattern_iff.mpr hw⟩

/-- A word is accepted, with a parenthesis in front of it or without. -/
theorem accepts_typePattern_iff :
    accepts typePattern s ↔ ∃ w, (s = w ∨ s = '(' :: w) ∧ ∀ c ∈ w, isWordChar c := by
  rw [typePattern, accepts_cons_iff]
  constructor
  · rintro ⟨a, w, rfl, ha, hw⟩
    refine ⟨w, ?_, accepts_wordPattern_iff.mp hw⟩
    exact ha.imp (fun h => by rw [h]; rfl) (fun h => by rw [h]; rfl)
  · rintro ⟨w, rfl | rfl, hw⟩
    · exact ⟨[], s, rfl, .inl rfl, accepts_wordPattern_iff.mpr hw⟩
    · exact ⟨['('], w, rfl, .inr rfl, accepts_wordPattern_iff.mpr hw⟩

/-- A colon is accepted, with a blank behind it or without, and then a type. -/
theorem accepts_annotationPattern_iff :
    accepts annotationPattern s ↔
      ∃ t, (s = ':' :: t ∨ s = ':' :: ' ' :: t) ∧ accepts typePattern t := by
  rw [annotationPattern, accepts_cons_iff]
  constructor
  · rintro ⟨a, b, rfl, rfl, hb⟩
    obtain ⟨blank, t, rfl, rfl | rfl, ht⟩ := accepts_cons_iff.mp hb
    · exact ⟨t, .inl rfl, ht⟩
    · exact ⟨t, .inr rfl, ht⟩
  · rintro ⟨t, rfl | rfl, ht⟩
    · exact ⟨[':'], t, rfl, rfl, accepts_cons_iff.mpr ⟨[], t, rfl, .inl rfl, ht⟩⟩
    · exact ⟨[':'], ' ' :: t, rfl, rfl, accepts_cons_iff.mpr ⟨[' '], t, rfl, .inr rfl, ht⟩⟩

/-! ## What the patterns find -/

/-- Only one sign stands in front of a word. -/
theorem eq_of_cons_suffix {a b : Char} (ha : a :: word <:+ near) (hb : b :: word <:+ near) :
    a = b :=
  (List.cons.inj ((List.suffix_of_suffix_length_le ha hb (Nat.le_refl _)).eq_of_length rfl)).1

variable (hword : IsLongestSuffix (fun s => ∀ c ∈ s, isWordChar c) near word)

include hword

/-- A word behind a sign is the whole word, because the sign is no character of words. -/
theorem eq_word_of_suffix {sign : Char} {w : List Char} (hsuffix : sign :: w <:+ near)
    (hsign : isWordChar sign = false) (hw : ∀ c ∈ w, isWordChar c) : w = word := by
  have hend : w <:+ near := (List.suffix_cons sign w).trans hsuffix
  have hle := hword.longest w hend hw
  refine (List.suffix_of_suffix_length_le hend hword.isSuffix hle).eq_of_length ?_
  -- if the word were longer, the sign would be in it
  by_contra hne
  have hlonger : sign :: w <:+ word :=
    List.suffix_of_suffix_length_le hsuffix hword.isSuffix (Nat.lt_of_le_of_ne hle hne)
  have hchar := hword.holds sign (hlonger.subset List.mem_cons_self)
  rw [hsign] at hchar
  cases hchar

/-- The pattern of words finds the word. -/
theorem isLongestSuffix_wordPattern : IsLongestSuffix (accepts wordPattern ·) near word := by
  refine ⟨hword.isSuffix, accepts_wordPattern_iff.mpr hword.holds, ?_⟩
  exact fun s hs haccepts => hword.longest s hs (accepts_wordPattern_iff.mp haccepts)

/-- The pattern of variables can only find the sigil in front of the word. -/
theorem accepts_variablePattern_suffix_iff (hs : s <:+ near) :
    accepts variablePattern s ↔ s = '$' :: word := by
  rw [accepts_variablePattern_iff]
  constructor
  · rintro ⟨w, rfl, hw⟩
    rw [eq_word_of_suffix hword hs rfl hw]
  · exact fun h => ⟨word, h, hword.holds⟩

/-- The pattern of variables finds the sigil and the word. -/
theorem isLongestSuffix_variablePattern (hsigil : '$' :: word <:+ near) :
    IsLongestSuffix (accepts variablePattern ·) near ('$' :: word) := by
  refine ⟨hsigil, (accepts_variablePattern_suffix_iff hword hsigil).mpr rfl, ?_⟩
  intro s hs haccepts
  rw [(accepts_variablePattern_suffix_iff hword hs).mp haccepts]

/-- The pattern of types can only find the word, or the word with a parenthesis in front of it. -/
theorem isLongestSuffix_typePattern :
    IsLongestSuffix (accepts typePattern ·) near
      (if '(' :: word <:+ near then '(' :: word else word) := by
  have haccepted : ∀ t, t <:+ near → accepts typePattern t →
      t = '(' :: word ∨ t.length ≤ word.length := by
    intro t ht haccepts
    obtain ⟨w, rfl | rfl, hw⟩ := accepts_typePattern_iff.mp haccepts
    · exact .inr (hword.longest t ht hw)
    · exact .inl (by rw [eq_word_of_suffix hword ht rfl hw])
  split
  · rename_i hparen
    refine ⟨hparen, accepts_typePattern_iff.mpr ⟨word, .inr rfl, hword.holds⟩, ?_⟩
    intro t ht haccepts
    rcases haccepted t ht haccepts with rfl | hle
    · exact Nat.le_refl _
    · exact Nat.le_succ_of_le hle
  · rename_i hparen
    refine ⟨hword.isSuffix, accepts_typePattern_iff.mpr ⟨word, .inl rfl, hword.holds⟩, ?_⟩
    intro t ht haccepts
    rcases haccepted t ht haccepts with rfl | hle
    · exact absurd ht hparen
    · exact hle

-- the match of an annotation starts at its colon, and the replaced text behind it
example : find? annotationPattern "$x: (Li".toList = some ("$x".toList, ": (Li".toList) ∧
    find? typePattern "$x: (Li".toList = some ("$x: ".toList, "(Li".toList) := by decide +kernel

/-- The pattern of annotations finds something where the reference asks for a colon. -/
theorem exists_accepts_annotationPattern_iff :
    (∃ t, t <:+ near ∧ accepts annotationPattern t) ↔
      (':' :: '(' :: word <:+ near ∨ ':' :: ' ' :: '(' :: word <:+ near) ∨
        (':' :: word <:+ near ∨ ':' :: ' ' :: word <:+ near) := by
  constructor
  · rintro ⟨t, ht, haccepts⟩
    obtain ⟨tail, hcolon, htail⟩ := accepts_annotationPattern_iff.mp haccepts
    obtain ⟨w, hopen, hw⟩ := accepts_typePattern_iff.mp htail
    have hparen : isWordChar '(' = false := by decide
    have hcolon' : isWordChar ':' = false := by decide
    have hblank : isWordChar ' ' = false := by decide
    -- the last sign in front of `w` is a parenthesis, a colon or a blank
    rcases hcolon with rfl | rfl <;> rcases hopen with rfl | rfl
    · exact .inr (.inl (eq_word_of_suffix hword ht hcolon' hw ▸ ht))
    · have hend := (List.suffix_cons _ _).trans ht
      exact .inl (.inl (eq_word_of_suffix hword hend hparen hw ▸ ht))
    · have hend := (List.suffix_cons _ _).trans ht
      exact .inr (.inr (eq_word_of_suffix hword hend hblank hw ▸ ht))
    · have hend := (List.suffix_cons _ _).trans ((List.suffix_cons _ _).trans ht)
      exact .inl (.inr (eq_word_of_suffix hword hend hparen hw ▸ ht))
  · have hopened : accepts typePattern ('(' :: word) :=
      accepts_typePattern_iff.mpr ⟨word, .inr rfl, hword.holds⟩
    have hplain : accepts typePattern word :=
      accepts_typePattern_iff.mpr ⟨word, .inl rfl, hword.holds⟩
    rintro ((h | h) | (h | h))
    · exact ⟨_, h, accepts_annotationPattern_iff.mpr ⟨_, .inl rfl, hopened⟩⟩
    · exact ⟨_, h, accepts_annotationPattern_iff.mpr ⟨_, .inr rfl, hopened⟩⟩
    · exact ⟨_, h, accepts_annotationPattern_iff.mpr ⟨_, .inl rfl, hplain⟩⟩
    · exact ⟨_, h, accepts_annotationPattern_iff.mpr ⟨_, .inr rfl, hplain⟩⟩

end Patterns

/-! ## Answers -/

section Requests

variable {request : Request} {word : List Char}
  (hcursor : request.window.start + byteLength request.window.text = request.cursor)

include hcursor

/-- A match reaches up to the cursor, so it starts its own length before it. -/
theorem Request.offset_eq {before found : List Char}
    (htext : request.window.text = before ++ found) :
    request.offset before = request.cursor - byteLength found := by
  rw [Request.offset, ← hcursor, htext, byteLength_append]
  omega

variable (hword : IsLongestSuffix (fun s => ∀ c ∈ s, isWordChar c) request.window.text word)

include hword

/-- Behind a colon, text is replaced from the word on, or from the parenthesis in front of it. -/
theorem Request.typeAnnotation_eq (before found : List Char) :
    request.typeAnnotation before found =
      some ⟨.typePosition, request.cursor -
        byteLength (if '(' :: word <:+ request.window.text then '(' :: word else word)⟩ := by
  obtain ⟨kept, htext, hfind⟩ := exists_find?_eq_some (isLongestSuffix_typePattern hword)
  rw [Request.typeAnnotation, hfind]
  dsimp only
  rw [Request.offset_eq hcursor htext]

/-- The table says what the reference says. -/
theorem decided_triggers :
    decided triggers request =
      reference request.inType request.explicit request.cursor request.window.text word := by
  unfold reference triggers
  by_cases hsigil : '$' :: word <:+ request.window.text
  · obtain ⟨before, htext, hfind⟩ :=
      exists_find?_eq_some (isLongestSuffix_variablePattern hword hsigil)
    rw [if_pos hsigil, decided_of_find? hfind, Request.variableReference,
      Request.offset_eq hcursor htext]
  have hvariable : find? variablePattern request.window.text = none :=
    find?_eq_none_iff.mpr fun s hs h =>
      hsigil ((accepts_variablePattern_suffix_iff hword hs).mp h ▸ hs)
  rw [if_neg hsigil, decided_of_find?_eq_none hvariable]
  by_cases hcolon : ∃ t, t <:+ request.window.text ∧ accepts annotationPattern t
  · obtain ⟨⟨before, found⟩, hfind⟩ :
        ∃ m, find? annotationPattern request.window.text = some m := by
      rw [← Option.ne_none_iff_exists', Ne, find?_eq_none_iff]
      exact fun h => hcolon.elim fun t ht => h t ht.1 ht.2
    rw [decided_of_find? hfind, Request.typeAnnotation_eq hcursor hword]
    rw [exists_accepts_annotationPattern_iff hword] at hcolon
    by_cases hopened : ':' :: '(' :: word <:+ request.window.text ∨
        ':' :: ' ' :: '(' :: word <:+ request.window.text
    · have hparen : '(' :: word <:+ request.window.text := by
        rcases hopened with h | h
        · exact (List.suffix_cons _ _).trans h
        · exact (List.suffix_append [':', ' '] _).trans h
      rw [if_pos hopened, if_pos hparen]
    · have hplain := hcolon.resolve_left hopened
      have hparen : ¬ '(' :: word <:+ request.window.text := by
        intro hparen
        rcases hplain with h | h
        · exact absurd (eq_of_cons_suffix hparen h) (by decide)
        · exact absurd (eq_of_cons_suffix hparen ((List.suffix_cons _ _).trans h)) (by decide)
      rw [if_neg hopened, if_pos hplain, if_neg hparen]
  · have hannotation : find? annotationPattern request.window.text = none :=
      find?_eq_none_iff.mpr fun s hs h => hcolon ⟨s, hs, h⟩
    obtain ⟨before, htext, hfind⟩ := exists_find?_eq_some (isLongestSuffix_wordPattern hword)
    rw [exists_accepts_annotationPattern_iff hword, not_or] at hcolon
    rw [decided_of_find?_eq_none hannotation, decided_of_find? hfind, if_neg hcolon.1,
      if_neg hcolon.2, Request.wordFallback, Request.offset_eq hcursor htext]
    simp only [Bool.not_eq_true, and_comm]

end Requests

/-- **A cursor is classified by the table.** At a cursor that falls between two characters, no slice
of the source leaves a boundary, and the first rule whose pattern is found in the window answers. -/
theorem classify_eq_decided (source : String) (tree : Node) (cursor : Nat) (explicit : Bool)
    (config : Config) (hcursor : isBoundary cursor source.toList) :
    ∃ window, Window.before? source.toList cursor config.lookbehind = some window ∧
      classify source tree cursor explicit config =
        .ok (decided triggers ⟨tree, window, cursor, explicit⟩) := by
  obtain ⟨front, after, hsource, rfl⟩ := isBoundary_iff.mp hcursor
  have hsplit := splitAt?_eq_some_iff.mpr ⟨hsource, rfl⟩
  refine ⟨_, hsource ▸ Window.before?_eq front after config.lookbehind, ?_⟩
  obtain ⟨b, hb⟩ := (isLongestSuffix_window config.lookbehind front).isSuffix
  have hlength := congrArg byteLength hb
  rw [byteLength_append] at hlength
  rw [classify, hsplit, decided_triggers (by dsimp only; omega) (isLongestSuffix_word _)]
  exact congrArg Except.ok (classifyBehind_eq_reference _ _ _ _)

end GolfAssist.Completion
