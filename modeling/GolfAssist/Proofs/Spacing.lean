import GolfAssist.Proofs.Grammar
import GolfAssist.Proofs.Leaves
import GolfAssist.Proofs.Reader.Alike
import GolfAssist.Proofs.Tree.Entries

/-!
# Spacing does not count

* `Likeness.anywhere` — the likeness of sources in which all offsets go together, and no texts but
  equal ones.
* `Document.leafTexts` — the texts of the leaves of a document with the numbers of the leaves.
* `Document.spacing_does_not_count` — sources with the same tokens, up to their places, have trees
  with the same nodes and leaves with the same texts, and the same is said about what is wrong.

What a reader makes of tokens does not depend on their places (`Document.read_alike`), and what is
wrong with a token by itself does not either. The texts of leaves are looked up by places, but they
are those of the tokens (`Document.map_text_leaves`).
-/

namespace GolfAssist

/-! ## Tokens up to their places -/

/-- All offsets go together, and no texts but equal ones. -/
def Likeness.anywhere : Likeness where
  place _ _ := True
  text := Eq
  place_zero := trivial
  place_max _ _ := trivial

/-- Tokens with the same sort and text are alike wherever they stand. -/
theorem Token.alike_of_lexeme {t t' : Token} (h : t'.lexeme = t.lexeme) : t.Alike .anywhere t' := by
  obtain ⟨hkind, htext⟩ := Lexeme.mk.inj h
  exact ⟨hkind, trivial, trivial, htext.symm, fun _ => htext⟩

/-- Lists of tokens with the same sorts and texts are alike. -/
theorem Token.forall₂_alike {ts ts' : List Token} (h : ts'.map lexeme = ts.map lexeme) :
    List.Forall₂ (Alike .anywhere) ts ts' := by
  have heq := List.forall₂_eq_eq_eq.symm ▸ h.symm
  rw [List.forall₂_map_left_iff, List.forall₂_map_right_iff] at heq
  exact heq.imp fun _ _ ht => alike_of_lexeme ht.symm

/-! ## Messages -/

/-- Problems that are alike up to their places are the same. -/
theorem Problem.Alike.eq {p p' : Problem} (h : p.Alike .anywhere p') : p' = p := by
  cases h with
  | unterminatedString | slashOutsideBraces | bareColon => rfl
  | unknownCharacter htext | stray htext =>
      obtain rfl := htext
      rfl
  | missing hfound =>
      rcases hfound with ⟨htext⟩ | _
      · obtain rfl := htext
        rfl
      · rfl

/-- The problems of findings that are alike up to their places are the same. -/
theorem Finding.map_problem_of_alike {fs fs' : List Finding}
    (h : List.Forall₂ (Finding.Alike .anywhere) fs fs') :
    fs'.map (·.problem) = fs.map (·.problem) := by
  induction h with
  | nil => rfl
  | cons hf _ ih => rw [List.map_cons, List.map_cons, hf.problem.eq, ih]

/-- What is wrong with a token by itself does not depend on its place. -/
theorem Finding.map_problem_ofToken? {t t' : Token} (h : t'.lexeme = t.lexeme) :
    (ofToken? t').map (·.problem) = (ofToken? t).map (·.problem) := by
  obtain ⟨hkind, htext⟩ := Lexeme.mk.inj h
  unfold ofToken? Token.isClosedLiteral
  rw [hkind, htext]
  split
  · rfl
  · split <;> rfl
  · rfl

/-- What is wrong with tokens by themselves does not depend on their places. -/
theorem Finding.map_problem_filterMap {ts ts' : List Token}
    (h : ts'.map Token.lexeme = ts.map Token.lexeme) :
    (ts'.filterMap ofToken?).map (·.problem) = (ts.filterMap ofToken?).map (·.problem) := by
  have hmap : ∀ us : List Token, (us.filterMap ofToken?).map (·.problem) =
      us.filterMap fun t => (ofToken? t).map (·.problem) := fun us => List.map_filterMap
  rw [hmap, hmap]
  induction ts generalizing ts' with
  | nil => rw [List.map_eq_nil_iff.mp h]
  | cons t ts ih =>
      obtain ⟨t', ts', rfl, ht, hts⟩ := List.map_eq_cons_iff.mp h
      rw [List.filterMap_cons, List.filterMap_cons, map_problem_ofToken? ht, ih hts]

/-! ## Nodes -/

/-- Alike trees say the same about their nodes in numbers. -/
theorem Node.Alike.entries {l : Likeness} {n n' : Node} (h : n.Alike l n') :
    n'.entries = n.entries := by
  have hentry : ∀ p p' : Path, p.Alike l p' → p'.entry = p.entry := by
    intro p p' hp
    rw [Path.entry, Path.entry, hp.node.id, hp.node.kind, hp.parent, map_id hp.node.children]
  have hpaths := h.paths
  rw [Node.entries, Node.entries]
  generalize n.paths = ps at hpaths ⊢
  generalize n'.paths = ps' at hpaths ⊢
  induction hpaths with
  | nil => rfl
  | cons hp _ ih => rw [List.map_cons, List.map_cons, hentry _ _ hp, ih]

/-- The numbers of the leaves below the root can be read off the entries. -/
theorem Node.map_id_leaves (n : Node) :
    (n.preorder.tail.filter (·.isLeaf)).map (·.id) =
      (n.entries.tail.filter (·.children.isEmpty)).map (·.id) := by
  rw [preorder, entries, ← List.map_tail, ← List.map_tail, List.filter_map, List.filter_map,
    List.map_map, List.map_map]
  have hleaf : ((·.isLeaf) ∘ (·.node) : Path → Bool) = ((·.children.isEmpty) ∘ (·.entry)) := by
    funext p
    simp [isLeaf, Path.entry]
  rw [hleaf]
  rfl

namespace Document

/-- The numbers of the leaves below the root with their texts, in document order. -/
def leafTexts (d : Document) : List (Nat × String) :=
  (d.tree.preorder.tail.filter (·.isLeaf)).map fun n => (n.id, n.text d.source)

/-- The leaves have the texts of the tokens. -/
theorem map_text_leaves (source : String) :
    ((read source).tree.preorder.tail.filter (·.isLeaf)).map (·.text source) =
      (Token.lex source).dropLast.map (·.text) := by
  have hleaves := forall₂_yields_leaves source
  have hlex : ∀ t ∈ Token.scan 0 0 source.toList, t ∈ Token.lex source :=
    fun t ht => List.mem_append_left _ ht
  rw [Node.filter_isLeaf_tail_preorder, Token.lex, List.dropLast_concat]
  generalize (read source).tree.children.flatMap Node.leaves = leaves at hleaves ⊢
  generalize Token.scan 0 0 source.toList = tokens at hleaves hlex ⊢
  induction hleaves with
  | nil => rfl
  | @cons t n ts ns hyields _ ih =>
      have htext : n.text source = t.text := by
        rw [Node.text, textIn_of_yields (hlex t List.mem_cons_self) hyields, String.ofList_toList]
      rw [List.map_cons, List.map_cons, htext, ih fun u hu => hlex u (List.mem_cons_of_mem _ hu)]

/-- The texts of leaves come from the tokens, and their numbers from the entries. -/
theorem leafTexts_eq (source : String) :
    (read source).leafTexts =
      (((read source).tree.entries.tail.filter (·.children.isEmpty)).map (·.id)).zip
        ((Token.lex source).dropLast.map (·.text)) := by
  rw [← Node.map_id_leaves, ← map_text_leaves, List.zip_map', leafTexts]
  rfl

/-- **Spacing does not count.** If two sources have tokens of the same sorts with the same texts, in
whatever places, then their trees have as many nodes, with the same numbers, kinds, parents and
children, the leaves below the root have the same texts, and the same messages say what is wrong, in
the same order. -/
theorem spacing_does_not_count {source source' : String}
    (h : (Token.lex source').map Token.lexeme = (Token.lex source).map Token.lexeme) :
    (read source').tree.size = (read source).tree.size ∧
      (read source').tree.entries = (read source).tree.entries ∧
      (read source').leafTexts = (read source).leafTexts ∧
      (read source').diagnostics.map (·.message) = (read source).diagnostics.map (·.message) := by
  obtain ⟨htree, hfindings⟩ := read_alike (Token.forall₂_alike h)
  have hentries := htree.entries
  have htexts : (Token.lex source').dropLast.map (·.text) =
      (Token.lex source).dropLast.map (·.text) := by
    have hmap : ∀ ts : List Token, ts.dropLast.map (·.text) =
        ((ts.map Token.lexeme).map (·.text)).dropLast := by
      intro ts
      rw [List.map_map, List.map_dropLast]
      rfl
    rw [hmap, hmap, h]
  refine ⟨?_, hentries, ?_, ?_⟩
  · simpa [Node.entries, Node.size] using congrArg List.length hentries
  · rw [leafTexts_eq, leafTexts_eq, hentries, htexts]
  · have hmessages : ∀ fs : List Finding, (fs.map (·.diagnostic)).map (·.message) =
        (fs.map (·.problem)).map (·.message) := by
      intro fs
      rw [List.map_map, List.map_map]
      rfl
    have hlexical : (read source').lexicalFindings.map (·.problem) =
        (read source).lexicalFindings.map (·.problem) := Finding.map_problem_filterMap h
    rw [diagnostics, diagnostics, hmessages, hmessages, List.map_append,
      Finding.map_problem_of_alike hfindings, hlexical, ← List.map_append]

/-- A list that is not closed, with a type, an unknown character and a comment in it, on one line
and spread over three. -/
theorem spacing_does_not_count_unclosed :
    (Token.lex "($x:Int é %c").map Token.lexeme =
        (Token.lex "\n ( $x\n:  Inté%c").map Token.lexeme ∧
      (read "($x:Int é %c").tree.entries = (read "\n ( $x\n:  Inté%c").tree.entries ∧
      (read "($x:Int é %c").leafTexts = (read "\n ( $x\n:  Inté%c").leafTexts ∧
      (read "\n ( $x\n:  Inté%c").diagnostics.map (·.message) =
        ["expected `)`, found end of input", "unexpected char 'é'"] := by
  have hlex : (Token.lex "($x:Int é %c").map Token.lexeme =
      (Token.lex "\n ( $x\n:  Inté%c").map Token.lexeme := by
    calc (Token.lex "($x:Int é %c").map Token.lexeme
        = [⟨.openParen, "("⟩, ⟨.variable, "$x"⟩, ⟨.colon, ":"⟩, ⟨.word, "Int"⟩, ⟨.unknown, "é"⟩,
            ⟨.lineComment, "%c"⟩, ⟨.eof, ""⟩] := rfl
      _ = (Token.lex "\n ( $x\n:  Inté%c").map Token.lexeme := rfl
  obtain ⟨-, hentries, htexts, hmessages⟩ := spacing_does_not_count hlex
  refine ⟨hlex, hentries, htexts, ?_⟩
  rw [← hmessages]
  rfl

end Document

end GolfAssist
