import GolfAssist.Fold
import GolfAssist.Proofs.Shapes
import GolfAssist.Proofs.Tree.Innermost

/-!
# What folding hides

* `Node.IsInside` — a span is the inside of a node: from its one opening brace to its one closing
  brace, or to its end where there is none.
* `Node.Block` — a node taken apart into its braces and what is between them. All variants of a
  document can be taken apart so (`Document.nonempty_block`).
* `Node.InRow.preorder_pairwise` — of two nodes of a tree, the later one in document order lies in a
  child of the earlier one, or behind it.
* `Document.folds_are_insides` — folding hides the insides of variants, and of two hidden parts one
  lies in the other or they have nothing in common.

Folding looks at the first and at the last child, and goes by the kind of the last one. That these
are the braces of the node, and that no other child is a brace, is a matter of the shape of nodes;
that what is hidden nests, is one of their layout.
-/

namespace GolfAssist

/-! ## Spans -/

namespace Span

/-- The spans have nothing in common. -/
def Apart (a b : Span) : Prop := a.stop ≤ b.start ∨ b.stop ≤ a.start

/-- The span is a part of the other one, and not all of it. -/
def StrictlyIn (inner outer : Span) : Prop :=
  outer.start ≤ inner.start ∧ inner.stop ≤ outer.stop ∧ inner ≠ outer

end Span

namespace Node

/-! ## The inside of a node -/

/-- The span is the inside of the node. -/
structure IsInside (n : Node) (inside : Span) : Prop where
  /-- It starts behind the one opening brace of the node. -/
  start_eq : ∃ opener, n.children.filter (·.kind = .openBrace) = [opener] ∧ opener.isLeaf ∧
    inside.start = opener.span.stop
  /-- It stops in front of the one closing brace, or with the node if there is none. -/
  stop_eq : (∃ closer, n.children.filter (·.kind = .closeBrace) = [closer] ∧ closer.isLeaf ∧
      inside.stop = closer.span.start) ∨
    n.children.filter (·.kind = .closeBrace) = [] ∧ inside.stop = n.span.stop

/-- A node taken apart into its braces and what is between them. -/
structure Block (n : Node) where
  /-- The opening brace. -/
  opener : Node
  /-- What is between the braces. -/
  items : List Node
  /-- The closing brace, if there is one. -/
  closer? : Option Node
  /-- These are the children of the node. -/
  children_eq : n.children = opener :: items ++ closer?.toList
  /-- The opening brace is one. -/
  kind_opener : opener.kind = .openBrace
  /-- It has nothing below it. -/
  isLeaf_opener : opener.isLeaf
  /-- No brace is between the braces. -/
  kind_items : ∀ c ∈ items, c.kind ≠ .openBrace ∧ c.kind ≠ .closeBrace
  /-- The closing brace is one. -/
  kind_closer : ∀ c ∈ closer?, c.kind = .closeBrace
  /-- It has nothing below it. -/
  isLeaf_closer : ∀ c ∈ closer?, c.isLeaf

namespace Block

variable {n : Node} (b : n.Block)

/-- What is between the braces, or behind the opening one if there is no other. -/
def inside : Span := ⟨b.opener.span.stop, (b.closer?.map (·.span.start)).getD n.span.stop⟩

/-- The opening brace is the only one of its kind. -/
theorem filter_openBrace : n.children.filter (·.kind = .openBrace) = [b.opener] := by
  have hitems : b.items.filter (·.kind = .openBrace) = [] :=
    List.filter_eq_nil_iff.mpr fun c hc => by simpa using (b.kind_items c hc).1
  have hcloser : b.closer?.toList.filter (·.kind = .openBrace) = [] := by
    refine List.filter_eq_nil_iff.mpr fun c hc => ?_
    simp [b.kind_closer c (Option.mem_toList.mp hc)]
  rw [b.children_eq, List.filter_append, List.filter_cons_of_pos (by simp [b.kind_opener]), hitems,
    hcloser]
  rfl

/-- So is the closing one. -/
theorem filter_closeBrace :
    n.children.filter (·.kind = .closeBrace) = b.closer?.toList := by
  have hitems : b.items.filter (·.kind = .closeBrace) = [] :=
    List.filter_eq_nil_iff.mpr fun c hc => by simpa using (b.kind_items c hc).2
  have hcloser : b.closer?.toList.filter (·.kind = .closeBrace) = b.closer?.toList := by
    refine List.filter_eq_self.mpr fun c hc => ?_
    simp [b.kind_closer c (Option.mem_toList.mp hc)]
  rw [b.children_eq, List.filter_append, List.filter_cons_of_neg (by simp [b.kind_opener]), hitems,
    hcloser, List.nil_append]

/-- What is between the braces is the inside of the node, and nothing else is. -/
theorem isInside_iff {range : Span} : n.IsInside range ↔ range = b.inside := by
  have hopener := b.filter_openBrace
  have hcloser := b.filter_closeBrace
  constructor
  · rintro ⟨⟨opener, hopener', -, hstart⟩, hstop⟩
    obtain rfl : opener = b.opener := List.singleton_inj.mp (hopener'.symm.trans hopener)
    have hstop : range.stop = b.inside.stop := by
      rw [hcloser] at hstop
      rcases hstop with ⟨closer, hclosers, -, hstop⟩ | ⟨hnone, hstop⟩
      · rw [hstop, inside, Option.toList_eq_singleton_iff.mp hclosers]
        rfl
      · rw [hstop, inside, Option.toList_eq_nil_iff.mp hnone]
        rfl
    exact congr (congrArg Span.mk hstart) hstop
  · rintro rfl
    refine ⟨⟨b.opener, hopener, b.isLeaf_opener, rfl⟩, ?_⟩
    rw [hcloser]
    cases h : b.closer? with
    | none => exact .inr ⟨rfl, by rw [inside, h]; rfl⟩
    | some closer =>
        exact .inl ⟨closer, rfl, b.isLeaf_closer closer h, by rw [inside, h]; rfl⟩

/-- The last child, behind which folding stops to hide, is the closing brace or no brace. -/
theorem stop_of_getLastD {second : Node} {others : List Node}
    (h : n.children = b.opener :: second :: others) :
    (if (others.getLastD second).kind = .closeBrace then (others.getLastD second).span.start
      else n.span.stop) = b.inside.stop := by
  have hrest : second :: others = b.items ++ b.closer?.toList :=
    (List.cons.inj (h.symm.trans b.children_eq)).2
  rw [← List.getLastD_cons (a := second), hrest, inside]
  cases hcloser : b.closer? with
  | some closer =>
      rw [Option.toList_some, List.getLastD_concat, if_pos (b.kind_closer closer hcloser)]
      rfl
  | none =>
      rw [hcloser, Option.toList_none, List.append_nil] at hrest
      rw [Option.toList_none, List.append_nil, if_neg]
      · rfl
      · have hmem : b.items.getLastD second ∈ b.items := by
          rw [← hrest, List.getLastD_cons]
          exact List.getLastD_mem_cons
        exact (b.kind_items _ hmem).2

/-- Folding hides what is between the braces, if there is something. -/
theorem foldRange?_eq (hk : n.kind = .variants) :
    n.foldRange? =
      if 2 ≤ n.children.length ∧ b.inside.start < b.inside.stop then some b.inside else none := by
  have hchildren := b.children_eq
  unfold foldRange?
  rw [hk]
  cases hrest : b.items ++ b.closer?.toList with
  | nil =>
      rw [List.cons_append, hrest] at hchildren
      simp [hchildren, Kind.foldRule?]
  | cons second others =>
      rw [List.cons_append, hrest] at hchildren
      have hstop := b.stop_of_getLastD hchildren
      have hlength : 2 ≤ n.children.length := by simp [hchildren]
      simp only [hlength, true_and]
      simp only [hchildren, Kind.foldRule?, hstop]
      rfl

/-- The opening brace is a child of the node. -/
theorem opener_mem : b.opener ∈ n.children := by
  rw [b.children_eq]
  exact List.mem_cons_self

/-- A child is a brace or stands between the braces. -/
theorem mem_children_iff {c : Node} :
    c ∈ n.children ↔ c = b.opener ∨ c ∈ b.items ∨ c ∈ b.closer? := by
  rw [b.children_eq, List.mem_append, List.mem_cons, Option.mem_toList, or_assoc, Option.mem_def]

/-- A child that has nodes below it stands between the braces. -/
theorem mem_items_of_mem_preorder {c m : Node} (hc : c ∈ n.children) (hm : m ∈ c.preorder)
    (hk : m.kind = .variants) : c ∈ b.items := by
  have hbrace : c.isLeaf → c.kind = .variants := by
    intro hleaf
    rw [preorder_eq, List.isEmpty_iff.mp hleaf] at hm
    rwa [← List.mem_singleton.mp hm]
  rcases b.mem_children_iff.mp hc with rfl | hc | hc
  · have hkind := hbrace b.isLeaf_opener
    rw [b.kind_opener] at hkind
    cases hkind
  · exact hc
  · have hkind := hbrace (b.isLeaf_closer c hc)
    rw [b.kind_closer c hc] at hkind
    cases hkind

section Layout

variable {At : Nat → Prop} (h : n.LaidOut At)
  (hchildren : ∀ c ∈ n.children, c.span.start < c.span.stop)

include h

/-- What stands between the braces lies inside. -/
theorem item_inside {c : Node} (hc : c ∈ b.items) :
    b.inside.start ≤ c.span.start ∧ c.span.stop ≤ b.inside.stop := by
  have hord := h.ordered
  rw [b.children_eq] at hord
  obtain ⟨hfront, -, hback⟩ := List.pairwise_append.mp hord
  refine ⟨List.rel_of_pairwise_cons hfront hc, ?_⟩
  unfold inside
  cases hcloser : b.closer? with
  | none => exact (h.inside c (b.mem_children_iff.mpr (.inr (.inl hc)))).2
  | some closer => exact hback c (List.mem_cons_of_mem _ hc) closer (by simp [hcloser])

include hchildren

/-- The inside lies in the node, and does not begin with it. -/
theorem inside_in_node : n.span.start < b.inside.start ∧ b.inside.stop ≤ n.span.stop := by
  constructor
  · have hle := (h.inside b.opener b.opener_mem).1
    have hlt := hchildren b.opener b.opener_mem
    exact Nat.lt_of_le_of_lt hle hlt
  · unfold inside
    cases hcloser : b.closer? with
    | none => exact Nat.le_refl _
    | some closer =>
        have hmem : closer ∈ n.children := b.mem_children_iff.mpr (.inr (.inr hcloser))
        exact Nat.le_trans (Nat.le_of_lt (hchildren closer hmem)) (h.inside closer hmem).2

end Layout

/-- The braces are not inside. -/
theorem brace_apart {c : Node} (hc : c ∈ n.children)
    (hk : c.kind = .openBrace ∨ c.kind = .closeBrace) : c.span.Apart b.inside := by
  rcases b.mem_children_iff.mp hc with rfl | hc | hc
  · exact .inl (Nat.le_refl _)
  · have hitem := b.kind_items c hc
    exact absurd hk (not_or.mpr hitem)
  · refine .inr (Nat.le_of_eq ?_)
    rw [inside, Option.mem_def.mp hc]
    rfl

end Block

/-! ## Nodes in document order -/

/-- **Of two nodes of a tree**, the later one in document order lies in a child of the earlier one,
or behind it. -/
theorem InRow.preorder_pairwise {At : Nat → Prop} {root : Node} (h : InRow At root.children) :
    root.preorder.Pairwise fun m n =>
      (∃ c ∈ m.children, n ∈ c.preorder ∧
          c.span.start ≤ n.span.start ∧ n.span.stop ≤ c.span.stop) ∨
        m.span.stop ≤ n.span.start := by
  induction root using induct with
  | step root ih =>
      rw [preorder_eq]
      refine List.pairwise_cons.mpr ⟨?_, List.pairwise_flatMap.mpr ⟨?_, ?_⟩⟩
      · intro n hn
        obtain ⟨c, hc, hnc⟩ := List.mem_flatMap.mp hn
        exact .inl ⟨c, hc, hnc, inside_of_mem_preorder (h.settled c hc) hnc⟩
      · intro c hc
        exact ih c hc (h.children hc)
      · -- trees below different children keep apart with these
        refine h.ordered.imp_of_mem ?_
        intro c d hc hd hle m hm n hn
        have hmc := inside_of_mem_preorder (h.settled c hc) hm
        have hnd := inside_of_mem_preorder (h.settled d hd) hn
        exact .inr (by omega)

end Node

/-! ## Documents -/

namespace Document

variable {source : String} {m n : Node}

/-- The variants of a document can be taken apart into their braces and what is between them. -/
theorem nonempty_block (hn : n ∈ (read source).tree.preorder) (hk : n.kind = .variants) :
    Nonempty n.Block := by
  have hshaped : n.Shaped source := by
    rcases mem_preorder_iff_finished.mp hn with rfl | hn
    · rw [kind_tree] at hk
      cases hk
    · exact (shapely_reader source).settled n hn
  have hleaf : ∀ c ∈ n.children, c.kind = .openBrace ∨ c.kind = .closeBrace → c.isLeaf := by
    intro c hc hbrace
    refine isLeaf_of_mem_preorder (Node.mem_preorder_of_mem_children hn hc) ?_ ?_ <;>
      rcases hbrace with hbrace | hbrace <;> simp [hbrace, Node.Kind.isComposite]
  have hshape := hshaped.shape
  rw [hk] at hshape
  obtain ⟨first, items, hfirst, hitems, hchildren⟩ := hshape
  have hopener : first.kind = .openBrace := (Option.some.inj hfirst).symm
  have hkinds : ∀ c ∈ items, c.kind ≠ .openBrace ∧ c.kind ≠ .closeBrace := by
    intro c hc
    have hholds := hitems c hc
    constructor <;> intro hkind <;> rw [hkind] at hholds <;> cases hholds
  rcases hchildren with hchildren | ⟨last, hlast, hchildren⟩
  · refine ⟨⟨first, items, none, by simpa using hchildren, hopener, ?_, hkinds, by simp, by simp⟩⟩
    exact hleaf first (by simp [hchildren]) (.inl hopener)
  · have hcloser : last.kind = .closeBrace := (Option.some.inj hlast).symm
    refine ⟨⟨first, items, some last, by simpa using hchildren, hopener, ?_, hkinds, ?_, ?_⟩⟩
    · exact hleaf first (by simp [hchildren]) (.inl hopener)
    · rintro c ⟨⟩
      exact hcloser
    · rintro c ⟨⟩
      exact hleaf last (by simp [hchildren]) (.inr hcloser)

/-- A node that can be folded is one of variants. -/
theorem kind_of_foldRange? {range : Span} (h : n.foldRange? = some range) : n.kind = .variants := by
  unfold Node.foldRange? at h
  split at h
  · rename_i hrule _
    unfold Node.Kind.foldRule? at hrule
    split at hrule
    · assumption
    · cases hrule
  · cases h

/-- What is hidden of a node is what is between its braces. -/
theorem eq_inside_of_foldRange? (b : n.Block) {range : Span} (h : n.foldRange? = some range) :
    range = b.inside := by
  rw [b.foldRange?_eq (kind_of_foldRange? h)] at h
  split at h
  · exact (Option.some.inj h).symm
  · cases h

/-- Of two nodes that can be folded, what is hidden of the later one lies in what is hidden of the
earlier one, or behind it. -/
theorem foldRanges_pairwise (source : String) :
    (read source).tree.preorder.Pairwise fun m n => ∀ a b, m.foldRange? = some a →
      n.foldRange? = some b → a.Apart b ∨ b.StrictlyIn a := by
  refine (inRow_children source).preorder_pairwise.imp_of_mem ?_
  intro m n hm hn hplace a b ha hb
  have hkm := kind_of_foldRange? ha
  have hkn := kind_of_foldRange? hb
  obtain ⟨outer⟩ := nonempty_block hm hkm
  obtain ⟨inner⟩ := nonempty_block hn hkn
  obtain ⟨hlaid, hchildren⟩ := laidOut_of_mem_preorder hm (by simp [hkm])
  obtain ⟨hlaid', hchildren'⟩ := laidOut_of_mem_preorder hn (by simp [hkn])
  obtain rfl := eq_inside_of_foldRange? outer ha
  obtain rfl := eq_inside_of_foldRange? inner hb
  have hinner := inner.inside_in_node hlaid' hchildren'
  rcases hplace with ⟨c, hc, hnc, hstart, hstop⟩ | hbehind
  · have hitem := outer.item_inside hlaid (outer.mem_items_of_mem_preorder hc hnc hkn)
    refine .inr ⟨by omega, by omega, fun heq => ?_⟩
    -- the opening brace of the inner node stands between the two starts
    rw [heq] at hinner
    omega
  · have houter := outer.inside_in_node hlaid hchildren
    exact .inl (.inl (by omega))

end Document

end GolfAssist
