import GolfAssist.Proofs.Reader.Draft
import GolfAssist.Proofs.Tree.Preorder
import Mathlib.Data.List.Forall2

/-!
# The tree of a document has every token

* `Builder.fringe` — the leaves of a tree under construction, in document order.
* `Token.Yields` — a leaf is what has become of a token: it has its place, and one of the kinds
  that the token allows (`Token.leafKinds`).
* `Document.leaves_are_tokens` — the leaves of a document are its tokens, one by one and in order,
  comments included.

The fringe says all that an act does to the leaves. Placing a token adds one leaf at its end, and
closing a node that has a child, or wrapping one, leaves it as it is; so the fringe keeps pace
with the tokens that have been placed.
-/

namespace GolfAssist

/-- The node is what has become of the token. -/
def Token.Yields (t : Token) (n : Node) : Prop := n.span = t.span ∧ n.kind ∈ t.leafKinds

/-! ## The leaves of a tree under construction -/

namespace Builder

/-- The leaves of a tree under construction, in document order. -/
def fringe (b : Builder) : List Node := b.row.flatMap Node.leaves

/-- A leaf that is added comes last. -/
theorem fringe_leaf (b : Builder) (kind : Node.Kind) (span : Span) :
    (b.leaf kind span).fringe = b.fringe ++ [⟨b.next, kind, span, []⟩] := by
  unfold fringe
  rw [row_leaf, List.flatMap_append, List.flatMap_singleton, Node.leaves_of_children_nil rfl]

/-- The leaves of an open node that has a child come last. -/
theorem fringe_eq {b : Builder} (h : b.top.children ≠ []) (stop : Nat) :
    b.fringe = b.before.flatMap Node.leaves ++ (b.top.close stop).leaves := by
  have hne : (b.top.close stop).children ≠ [] := by simpa [Frame.close] using h
  rw [fringe, row, List.flatMap_append, Node.leaves_of_children_ne_nil hne]
  rfl

/-- Closing a node that has a child moves no leaf. -/
theorem fringe_leave {b : Builder} (h : b.top.children ≠ []) (ho : b.outer ≠ []) (stop : Nat) :
    (b.leave stop).fringe = b.fringe := by
  rw [fringe_eq h stop, fringe, row_leave ho, List.flatMap_append, List.flatMap_singleton]

end Builder

/-! ## Tokens and leaves -/

namespace Draft

/-- The leaves of the draft are the tokens that have been placed. -/
def Tracks (tokens : List Token) (d : Draft) : Prop :=
  ∃ placed, tokens = placed ++ d.rest ∧ List.Forall₂ Token.Yields placed d.builder.fringe

/-- A leaf that is added is the token that has been placed. -/
theorem Tracks.snoc {tokens rest : List Token} {t : Token} {b b' : Builder}
    {fs fs' : List Finding} {n : Node} (h : Tracks tokens ⟨t :: rest, b, fs⟩) (hn : t.Yields n)
    (hb : b'.fringe = b.fringe ++ [n]) : Tracks tokens ⟨rest, b', fs'⟩ := by
  obtain ⟨placed, hsplit, hpairs⟩ := h
  refine ⟨placed ++ [t], by rw [hsplit, List.append_assoc]; rfl, ?_⟩
  rw [hb]
  exact List.rel_append hpairs (.cons hn .nil)

/-- Nothing is lost where the leaves stay as they are. -/
theorem Tracks.congr {tokens rest : List Token} {b b' : Builder} {fs fs' : List Finding}
    (h : Tracks tokens ⟨rest, b, fs⟩) (hb : b'.fringe = b.fringe) :
    Tracks tokens ⟨rest, b', fs'⟩ := by
  obtain ⟨placed, hsplit, hpairs⟩ := h
  exact ⟨placed, hsplit, hb ▸ hpairs⟩

/-- No act loses a token, takes one twice or puts one in another's place. -/
theorem Act.tracks {tokens : List Token} {d d' : Draft} (h : Act d d') (hd : Tracks tokens d) :
    Tracks tokens d' := by
  cases h with
  | place hk _ _ => exact hd.snoc ⟨rfl, hk⟩ (Builder.fringe_leaf _ _ _)
  | reject hk => exact hd.snoc ⟨rfl, hk⟩ (Builder.fringe_leaf _ _ _)
  | @enter t rest b fs kind leaf hl _ =>
      have hb := Builder.fringe_leaf (b.enter kind t.start) leaf t.span
      rw [Builder.fringe, Builder.fringe, Builder.row_enter] at hb
      exact hd.snoc ⟨rfl, hl⟩ hb
  | @complete t rest b fs leaf hl _ ho =>
      have hb := Builder.fringe_leaf b leaf t.span
      rw [← Builder.fringe_leave (b := b.leaf leaf t.span) (List.cons_ne_nil _ _) ho 0] at hb
      exact hd.snoc ⟨rfl, hl⟩ hb
  | wrap hb _ _ =>
      apply hd.congr
      unfold Builder.fringe
      rw [Builder.row_wrap hb]
  | conclude _ hn _ ho => exact hd.congr (Builder.fringe_leave hn ho 0)
  | @forgo rest b fs kind next wanted _ hn ho _ =>
      have hne : b.top.children ≠ [] := by
        intro h
        rw [Frame.newest?, h] at hn
        cases hn
      exact hd.congr (Builder.fringe_leave hne ho 0)
  | breakOff _ hn ho => exact hd.congr (Builder.fringe_leave hn ho _)
  | complain _ _ => exact hd

end Draft

/-- What stands in one of two lists that go together has a partner in the other. -/
theorem exists_of_mem_forall₂ {α β : Type} {R : α → β → Prop} {as : List α} {bs : List β}
    (h : List.Forall₂ R as bs) {a : α} (ha : a ∈ as) : ∃ b ∈ bs, R a b := by
  induction h with
  | nil => cases ha
  | cons hr _ ih =>
      rcases List.mem_cons.mp ha with rfl | ha
      · exact ⟨_, List.mem_cons_self, hr⟩
      · obtain ⟨b, hb, hab⟩ := ih ha
        exact ⟨b, List.mem_cons_of_mem _ hb, hab⟩

namespace Document

/-- The leaves below the root are the tokens, without the one that marks the end. -/
theorem forall₂_yields_leaves (source : String) :
    List.Forall₂ Token.Yields (Token.scan 0 0 source.toList)
      ((read source).tree.children.flatMap Node.leaves) := by
  obtain ⟨placed, hsplit, hpairs⟩ :=
    of_acts (I := Draft.Tracks (Token.lex source)) ⟨[], rfl, .nil⟩ fun _ => Draft.Act.tracks
  have hplaced : Token.scan 0 0 source.toList = placed := List.append_cancel_right hsplit
  rw [Builder.fringe] at hpairs
  rw [hplaced, tree_eq]
  exact hpairs

/-- Every token but the one that marks the end has become a leaf. -/
theorem exists_leaf_of_mem_lex {source : String} {t : Token} (ht : t ∈ Token.lex source)
    (he : t.kind ≠ .eof) : ∃ n ∈ (read source).tree.preorder, n.isLeaf ∧ t.Yields n := by
  have hscan : t ∈ Token.scan 0 0 source.toList := by
    rcases List.mem_append.mp ht with ht | ht
    · exact ht
    · obtain rfl := List.mem_singleton.mp ht
      exact absurd rfl he
  obtain ⟨n, hn, hyields⟩ := exists_of_mem_forall₂ (forall₂_yields_leaves source) hscan
  rw [← Node.filter_isLeaf_tail_preorder, List.mem_filter] at hn
  exact ⟨n, List.mem_of_mem_tail hn.1, hn.2, hyields⟩

/-- Every leaf but the root is what has become of a token. -/
theorem exists_token_of_isLeaf {source : String} {n : Node} (hn : n ∈ (read source).tree.preorder)
    (hleaf : n.isLeaf) (hk : n.kind ≠ .program) : ∃ t ∈ Token.lex source, t.Yields n := by
  have hmem : n ∈ (read source).tree.children.flatMap Node.leaves := by
    rw [← Node.filter_isLeaf_tail_preorder]
    refine List.mem_filter.mpr ⟨?_, hleaf⟩
    rw [Node.preorder_eq] at hn ⊢
    rcases List.mem_cons.mp hn with rfl | hn
    · exact absurd (kind_tree source) hk
    · exact hn
  obtain ⟨t, ht, hyields⟩ := exists_of_mem_forall₂ (forall₂_yields_leaves source).flip hmem
  exact ⟨t, List.mem_append_left _ ht, hyields⟩

end Document

end GolfAssist
