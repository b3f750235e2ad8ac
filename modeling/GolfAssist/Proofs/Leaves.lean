import GolfAssist.Proofs.Recovery
import GolfAssist.Proofs.Token.Munch
import Mathlib.Data.List.Pairwise

/-!
# The leaves of a document

* `Node.Kind.isComposite` — the kinds of the nodes that have nodes below them; no other node but the
  root has any (`Document.isLeaf_of_mem_preorder`).
* `Document.leaves_pairwise` — the leaves come in the order of the source and do not overlap.
* `Document.exists_word_of_mem_preorder` — a node that is a variable covers a sigil and all
  characters of words behind it.
-/

namespace GolfAssist

/-! ## Kinds of leaves -/

namespace Node.Kind

/-- Nodes of the kind have nodes below them. -/
def isComposite : Node.Kind → Bool
  | .sexpr | .variants | .typedExpr | .typeSexpr | .typeRange => true
  | _ => false

/-- What ends with a leaf of its own is composite. -/
theorem isComposite_of_ender {kind leaf : Node.Kind} (h : kind.ender? = some leaf) :
    kind.isComposite := by
  unfold ender? at h
  split at h <;> simp_all [isComposite]

/-- What waits for something behind a leaf is composite. -/
theorem isComposite_of_promise {kind leaf : Node.Kind} (h : kind.promise? = some leaf) :
    kind.isComposite := by
  unfold promise? at h
  split at h <;> simp_all [isComposite]

/-- What a token breaks off is composite. -/
theorem isComposite_of_brokenBy {kind : Node.Kind} {token : Token.Kind} {wanted : Wanted}
    (h : kind.brokenBy token = some wanted) : kind.isComposite := by
  unfold brokenBy at h
  split at h <;> simp_all [isComposite]

end Node.Kind

/-- A variable comes from a token that is one. -/
theorem Token.kind_eq_variable {t : Token} (h : Node.Kind.variable ∈ t.leafKinds) :
    t.kind = .variable := by
  have hword := Node.Kind.ofWord_eq t.text
  unfold leafKinds at h
  split at h <;> simp_all
  rcases hword with hw | hw | hw <;> rw [hw] at h <;> cases h

/-- The text of a node is the slice of the source at its place. -/
theorem Node.text_of_slice {source : String} {n : Node} {part : List Char}
    (h : Text.slice? n.span.start n.span.stop source.toList = some part) :
    n.text source = String.ofList part := by
  rw [text, textIn, h, Option.getD_some]

namespace Draft

/-- Only nodes of composite kinds have nodes below them. -/
def Layered (d : Draft) : Prop := ∀ n ∈ d.builder.finished, n.isLeaf ∨ n.kind.isComposite

/-- Every act closes nodes of composite kinds only. -/
theorem Act.layered {d d' : Draft} (h : Act d d') (hd : d.Layered) : d'.Layered := by
  have hleaf : ∀ {b : Builder} {kind : Node.Kind} {span : Span},
      (∀ n ∈ b.finished, n.isLeaf ∨ n.kind.isComposite) →
      ∀ n ∈ (b.leaf kind span).finished, n.isLeaf ∨ n.kind.isComposite := by
    intro b kind span hb n hn
    rcases Builder.mem_finished_leaf.mp hn with rfl | hn
    · exact .inl rfl
    · exact hb n hn
  have hleave : ∀ {b : Builder} {stop : Nat}, b.outer ≠ [] → b.top.kind.isComposite →
      (∀ n ∈ b.finished, n.isLeaf ∨ n.kind.isComposite) →
      ∀ n ∈ (b.leave stop).finished, n.isLeaf ∨ n.kind.isComposite := by
    intro b stop ho hk hb n hn
    rcases (Builder.mem_finished_leave ho stop).mp hn with rfl | hn
    · exact .inr hk
    · exact hb n hn
  cases h with
  | place _ _ _ => exact hleaf hd
  | reject _ => exact hleaf hd
  | @enter t rest b fs kind leaf _ _ =>
      refine hleaf ?_
      rw [Builder.finished, Builder.row_enter]
      exact hd
  | complete _ hk ho => exact hleave ho (Node.Kind.isComposite_of_ender hk) (hleaf hd)
  | wrap hb _ _ =>
      unfold Layered Builder.finished
      rw [Builder.row_wrap hb]
      exact hd
  | conclude hk _ _ ho => exact hleave ho (by rw [hk]; rfl) hd
  | forgo hk _ ho _ => exact hleave ho (Node.Kind.isComposite_of_promise hk) hd
  | breakOff hb _ ho => exact hleave ho (Node.Kind.isComposite_of_brokenBy hb) hd
  | complain _ _ => exact hd

end Draft

namespace Document

variable {source : String} {n : Node}

/-- A node that is neither composite nor the root is a leaf. -/
theorem isLeaf_of_mem_preorder (hn : n ∈ (read source).tree.preorder) (hp : n.kind ≠ .program)
    (hk : n.kind.isComposite = false) : n.isLeaf := by
  have hlayered := @of_acts source Draft.Layered (fun _ h => absurd h List.not_mem_nil)
    fun _ => Draft.Act.layered
  rcases mem_preorder_iff_finished.mp hn with rfl | hn
  · exact absurd (kind_tree source) hp
  · rcases hlayered n hn with h | h
    · exact h
    · rw [hk] at h
      cases h

/-! ## The order of leaves -/

/-- The leaves have the places of the tokens. -/
theorem map_span_leaves (source : String) :
    ((read source).tree.preorder.tail.filter (·.isLeaf)).map (·.span) =
      (Token.scan 0 0 source.toList).map (·.span) := by
  rw [Node.filter_isLeaf_tail_preorder]
  have h := forall₂_yields_leaves source
  generalize (read source).tree.children.flatMap Node.leaves = leaves at h ⊢
  generalize Token.scan 0 0 source.toList = tokens at h ⊢
  induction h with
  | nil => rfl
  | cons hyields _ ih => rw [List.map_cons, List.map_cons, hyields.1, ih]

/-- If there is a leaf below the root, the root is none. -/
theorem mem_leaves_of_isLeaf {m : Node}
    (hm : m ∈ (read source).tree.preorder.tail.filter (·.isLeaf))
    (hn : n ∈ (read source).tree.preorder) (hleaf : n.isLeaf) :
    n ∈ (read source).tree.preorder.tail.filter (·.isLeaf) := by
  rw [Node.filter_isLeaf_tail_preorder] at hm
  rw [Node.preorder_eq] at hn ⊢
  rcases List.mem_cons.mp hn with rfl | hn
  · rw [Node.isLeaf, List.isEmpty_iff] at hleaf
    rw [hleaf] at hm
    cases hm
  · exact List.mem_filter.mpr ⟨hn, hleaf⟩

/-- A leaf below the root has the place of a token. -/
theorem exists_token_of_mem_leaves
    (hn : n ∈ (read source).tree.preorder.tail.filter (·.isLeaf)) :
    ∃ t ∈ Token.scan 0 0 source.toList, t.span = n.span := by
  have hspan : n.span ∈ (Token.scan 0 0 source.toList).map (·.span) := by
    rw [← map_span_leaves]
    exact List.mem_map_of_mem hn
  exact List.mem_map.mp hspan

/-- Leaves come in the order of the source and do not overlap. -/
theorem leaves_pairwise (source : String) :
    ((read source).tree.preorder.tail.filter (·.isLeaf)).Pairwise
      fun a b => a.span.stop ≤ b.span.start := by
  have htokens : ((Token.scan 0 0 source.toList).map (·.span)).Pairwise
      fun a b => a.stop ≤ b.start :=
    List.pairwise_map.mpr (Token.scan_pairwise 0 0 source.toList)
  rw [← map_span_leaves] at htokens
  exact List.pairwise_map.mp htokens

/-- Of two leaves, one ends before the other starts. -/
theorem leaves_apart {m : Node} (hm : m ∈ (read source).tree.preorder.tail.filter (·.isLeaf))
    (hn : n ∈ (read source).tree.preorder.tail.filter (·.isLeaf)) (hne : m ≠ n) :
    m.span.stop ≤ n.span.start ∨ n.span.stop ≤ m.span.start := by
  have hapart : ((read source).tree.preorder.tail.filter (·.isLeaf)).Pairwise
      fun a b => a.span.stop ≤ b.span.start ∨ b.span.stop ≤ a.span.start :=
    (leaves_pairwise source).imp fun h => .inl h
  have hsymm : Std.Symm fun a b : Node =>
      a.span.stop ≤ b.span.start ∨ b.span.stop ≤ a.span.start := ⟨fun _ _ h => h.symm⟩
  exact hapart.forall hm hn hne

/-- A node that is a variable covers a sigil and all characters of words behind it. -/
theorem exists_word_of_mem_preorder (hn : n ∈ (read source).tree.preorder)
    (hk : n.kind = .variable) :
    ∃ a word b, source.toList = a ++ Lexicon.sigil :: word ++ b ∧
      n.span = ⟨Text.byteLength a, Text.byteLength (a ++ Lexicon.sigil :: word)⟩ ∧
      (∀ c ∈ word, Lexicon.isWordChar c) ∧ b.head?.any Lexicon.isWordChar = false := by
  have hleaf := isLeaf_of_mem_preorder hn (by rw [hk]; simp) (by rw [hk]; rfl)
  obtain ⟨t, ht, hspan, hkind⟩ := exists_token_of_isLeaf hn hleaf (by rw [hk]; simp)
  obtain ⟨a, word, b, hsource, rfl, hword, hb⟩ :=
    Token.exists_word_of_mem_lex ht (Token.kind_eq_variable (hk ▸ hkind))
  refine ⟨a, word, b, hsource, ?_, hword, hb⟩
  rw [hspan, Token.span, Token.stop_ofList, Text.byteLength_append]

/-! ## Variables -/

/-- The nodes of a document that are variables, in document order. -/
def occurrences (d : Document) : List Node := d.tree.preorder.filter (·.kind = .variable)

/-- A variable is a node of the tree. -/
theorem mem_occurrences_iff : n ∈ (read source).occurrences ↔
    n ∈ (read source).tree.preorder ∧ n.kind = .variable := by
  rw [occurrences, List.mem_filter, decide_eq_true_eq]

/-- A variable has nothing below it. -/
theorem isLeaf_of_mem_occurrences (hn : n ∈ (read source).occurrences) : n.isLeaf := by
  obtain ⟨hn, hk⟩ := mem_occurrences_iff.mp hn
  exact isLeaf_of_mem_preorder hn (by rw [hk]; simp) (by rw [hk]; rfl)

/-- The variables are among the leaves below the root. -/
theorem occurrences_sublist (source : String) :
    (read source).occurrences.Sublist ((read source).tree.preorder.tail.filter (·.isLeaf)) := by
  have hfilter : (read source).occurrences =
      ((read source).tree.preorder.tail.filter (·.isLeaf)).filter (·.kind = .variable) := by
    have hkind : (read source).tree.kind ≠ .variable := by
      rw [kind_tree]
      simp
    rw [occurrences, Node.preorder_eq, List.filter_cons_of_neg (by simpa using hkind),
      List.tail_cons, List.filter_filter]
    apply List.filter_congr
    intro n hn
    have hmem : n ∈ (read source).tree.preorder := by
      rw [Node.preorder_eq]
      exact List.mem_cons_of_mem _ hn
    by_cases hk : n.kind = .variable
    · simp [hk, isLeaf_of_mem_occurrences (mem_occurrences_iff.mpr ⟨hmem, hk⟩)]
    · simp [hk]
  rw [hfilter]
  exact List.filter_sublist

/-- Variables come in the order of the source. -/
theorem occurrences_pairwise (source : String) :
    (read source).occurrences.Pairwise fun a b => a.span.start < b.span.start := by
  refine ((leaves_pairwise source).sublist (occurrences_sublist source)).imp_of_mem ?_
  intro a b ha _ hle
  obtain ⟨hmem, hk⟩ := mem_occurrences_iff.mp ha
  obtain ⟨front, word, _, _, hspan, _⟩ := exists_word_of_mem_preorder hmem hk
  have hpos := Text.byteLength_cons_pos Lexicon.sigil word
  rw [hspan, Text.byteLength_append] at hle
  rw [hspan]
  dsimp only at hle ⊢
  omega

end Document

end GolfAssist
