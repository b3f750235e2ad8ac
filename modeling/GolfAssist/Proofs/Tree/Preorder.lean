import GolfAssist.Tree.Builder

/-!
# Trees in document order

* `Node.preorder_eq` — the nodes of a tree are its root and then, child by child, the nodes below.
* `Node.leaves` — the nodes that have nothing below them, in document order.
* `Node.exists_place_of_mem_tail_paths` — every place of a tree but its root hangs below a place
  whose node has it among its children.
* `Builder.row` — the nodes of a tree under construction that wait to be closed in, and
  `Builder.finished`, these with all that is below them.

`Node.paths` runs through a tree with the nodes above at hand, which an induction over the tree has
to carry along. The first equation gets rid of them, and all else about the order of nodes is
proved from it.
-/

namespace GolfAssist

namespace Node

/-! ## The nodes of a tree -/

mutual

/-- The nodes of a tree do not depend on what it hangs below. -/
theorem map_node_pathsBelow (above : List Node) :
    (n : Node) → (pathsBelow above n).map (·.node) = n.preorder
  | ⟨id, kind, span, children⟩ => by
      unfold preorder paths
      rw [pathsBelow, pathsBelow, List.map_cons, List.map_cons, map_node_forestPaths _ children,
        map_node_forestPaths _ children]

/-- The nodes of neighbouring trees come tree by tree. -/
theorem map_node_forestPaths (above : List Node) :
    (ns : List Node) → (forestPaths above ns).map (·.node) = ns.flatMap preorder
  | [] => rfl
  | n :: ns => by
      rw [forestPaths, List.map_append, List.flatMap_cons, map_node_pathsBelow above n,
        map_node_forestPaths above ns]

end

/-- The nodes of a tree are its root and then the nodes below, child by child. -/
theorem preorder_eq (n : Node) : n.preorder = n :: n.children.flatMap preorder := by
  obtain ⟨id, kind, span, children⟩ := n
  rw [preorder, paths, pathsBelow, List.map_cons, map_node_forestPaths]

/-- A node of a tree is its root or a node of one of the trees below. -/
theorem mem_preorder_iff {m n : Node} :
    m ∈ n.preorder ↔ m = n ∨ ∃ c ∈ n.children, m ∈ c.preorder := by
  rw [preorder_eq, List.mem_cons, List.mem_flatMap]

/-- The root is a node of its tree. -/
theorem self_mem_preorder (n : Node) : n ∈ n.preorder := mem_preorder_iff.mpr (.inl rfl)

/-- What holds of a tree when it holds of the trees below its root, holds of all trees. -/
theorem induct {P : Node → Prop} (step : ∀ n, (∀ c ∈ n.children, P c) → P n) (n : Node) : P n :=
  step n fun c _ => induct step c
termination_by sizeOf n
decreasing_by
  have hlt := List.sizeOf_lt_of_mem ‹c ∈ n.children›
  obtain ⟨id, kind, span, children⟩ := n
  simp only [Node.mk.sizeOf_spec] at hlt ⊢
  omega

/-- The children of a node of a tree are nodes of the tree. -/
theorem mem_preorder_of_mem_children {n q c : Node} (hq : q ∈ n.preorder) (hc : c ∈ q.children) :
    c ∈ n.preorder := by
  induction n using induct with
  | step n ih =>
      rcases mem_preorder_iff.mp hq with rfl | ⟨d, hd, hqd⟩
      · exact mem_preorder_iff.mpr (.inr ⟨c, hc, self_mem_preorder c⟩)
      · exact mem_preorder_iff.mpr (.inr ⟨d, hd, ih d hd hqd⟩)

/-! ## Leaves -/

/-- The nodes of a tree with nothing below them, in document order. -/
def leaves (n : Node) : List Node := n.preorder.filter (·.isLeaf)

/-- A node without children is its only leaf. -/
theorem leaves_of_children_nil {n : Node} (h : n.children = []) : n.leaves = [n] := by
  rw [leaves, preorder_eq, h]
  simp [isLeaf, h]

/-- The leaves below the root come child by child. -/
theorem filter_isLeaf_tail_preorder (n : Node) :
    n.preorder.tail.filter (·.isLeaf) = n.children.flatMap leaves := by
  rw [preorder_eq, List.tail_cons, List.filter_flatMap]
  rfl

/-- The leaves of a node with children are those of its children. -/
theorem leaves_of_children_ne_nil {n : Node} (h : n.children ≠ []) :
    n.leaves = n.children.flatMap leaves := by
  have hleaf : n.isLeaf = false := by simpa [isLeaf] using h
  rw [← filter_isLeaf_tail_preorder, leaves, preorder_eq, List.filter_cons_of_neg (by simp [hleaf]),
    List.tail_cons]

/-- Every node has a leaf. -/
theorem leaves_ne_nil (n : Node) : n.leaves ≠ [] := by
  induction n using induct with
  | step n ih =>
      cases hchildren : n.children with
      | nil =>
          rw [leaves_of_children_nil hchildren]
          exact List.cons_ne_nil _ _
      | cons c cs =>
          rw [leaves_of_children_ne_nil (by simp [hchildren]), hchildren, List.flatMap_cons]
          intro hnil
          exact ih c (by simp [hchildren]) (List.append_eq_nil_iff.mp hnil).1

/-! ## Parents -/

/-- The node of a place of a tree is a node of the tree. -/
theorem node_mem_preorder {n : Node} {p : Path} (h : p ∈ n.paths) : p.node ∈ n.preorder :=
  List.mem_map.mpr ⟨p, h, rfl⟩

mutual

/-- A place of a tree that hangs below `above` is its root, or hangs below a place whose node has it
among its children. -/
theorem parent_of_mem_pathsBelow {p : Path} (above : List Node) :
    (n : Node) → p ∈ pathsBelow above n →
      p = ⟨n, above⟩ ∨
        ∃ q ∈ pathsBelow above n, p.above = q.ancestors ∧ p.node ∈ q.node.children
  | ⟨id, kind, span, children⟩, h => by
      rw [pathsBelow] at h ⊢
      rcases List.mem_cons.mp h with rfl | h
      · exact .inl rfl
      · right
        rcases parent_of_mem_forestPaths _ children h with ⟨c, hc, rfl⟩ | ⟨q, hq, hpq⟩
        · exact ⟨_, List.mem_cons_self, rfl, hc⟩
        · exact ⟨q, List.mem_cons_of_mem _ hq, hpq⟩

/-- A place of neighbouring trees is the root of one of them, or hangs below a place whose node has
it among its children. -/
theorem parent_of_mem_forestPaths {p : Path} (above : List Node) :
    (ns : List Node) → p ∈ forestPaths above ns →
      (∃ c ∈ ns, p = ⟨c, above⟩) ∨
        ∃ q ∈ forestPaths above ns, p.above = q.ancestors ∧ p.node ∈ q.node.children
  | [], h => by simp [forestPaths] at h
  | n :: ns, h => by
      rw [forestPaths] at h ⊢
      rcases List.mem_append.mp h with h | h
      · rcases parent_of_mem_pathsBelow above n h with hp | ⟨q, hq, hpq⟩
        · exact .inl ⟨n, List.mem_cons_self, hp⟩
        · exact .inr ⟨q, List.mem_append_left _ hq, hpq⟩
      · rcases parent_of_mem_forestPaths above ns h with ⟨c, hc, hp⟩ | ⟨q, hq, hpq⟩
        · exact .inl ⟨c, List.mem_cons_of_mem _ hc, hp⟩
        · exact .inr ⟨q, List.mem_append_right _ hq, hpq⟩

end

/-- The places of a tree are its root and the places below. -/
theorem paths_eq (n : Node) : n.paths = ⟨n, []⟩ :: forestPaths [n] n.children := by
  obtain ⟨id, kind, span, children⟩ := n
  rw [paths, pathsBelow]

/-- Every place but the root hangs below a place whose node has it among its children. -/
theorem exists_place_of_mem_tail_paths {n : Node} {p : Path} (h : p ∈ n.paths.tail) :
    ∃ q ∈ n.paths, p.above = q.ancestors ∧ p.node ∈ q.node.children := by
  rw [paths_eq, List.tail_cons] at h
  rw [paths_eq]
  rcases parent_of_mem_forestPaths _ n.children h with ⟨c, hc, rfl⟩ | ⟨q, hq, hpq⟩
  · exact ⟨⟨n, []⟩, List.mem_cons_self, rfl, hc⟩
  · exact ⟨q, List.mem_cons_of_mem _ hq, hpq⟩

/-- Directly above every place but the root stands a node of the tree with that place among its
children. -/
theorem exists_parent_of_mem_tail_paths {n : Node} {p : Path} (h : p ∈ n.paths.tail) :
    ∃ q ∈ n.preorder, p.parent? = some q ∧ p.node ∈ q.children := by
  obtain ⟨q, hq, habove, hchild⟩ := exists_place_of_mem_tail_paths h
  refine ⟨q.node, node_mem_preorder hq, ?_, hchild⟩
  rw [Path.parent?, habove]
  rfl

end Node

/-! ## Trees under construction -/

namespace Builder

/-- The finished children of the open nodes around the innermost one, in document order. -/
def before (b : Builder) : List Node := b.outer.reverse.flatMap (·.children.reverse)

/-- The finished nodes that are children of an open one, in document order. -/
def row (b : Builder) : List Node := b.before ++ b.top.children.reverse

/-- A leaf comes last in the row. -/
theorem row_leaf (b : Builder) (kind : Node.Kind) (span : Span) :
    (b.leaf kind span).row = b.row ++ [⟨b.next, kind, span, []⟩] := by
  unfold row leaf Frame.push
  rw [List.reverse_cons, List.append_assoc]
  rfl

/-- A node that is opened has nothing in the row yet. -/
theorem row_enter (b : Builder) (kind : Node.Kind) (start : Nat) :
    (b.enter kind start).row = b.row := by
  unfold row before enter
  simp

/-- Closing a node puts it into the row in the place of its children. -/
theorem row_leave {b : Builder} (ho : b.outer ≠ []) (stop : Nat) :
    (b.leave stop).row = b.before ++ [b.top.close stop] := by
  obtain ⟨f, outer, houter⟩ := List.exists_cons_of_ne_nil ho
  unfold row before leave
  simp [houter, Frame.push]

/-- Wrapping does not change the row. -/
theorem row_wrap {b b' : Builder} {kind : Node.Kind} (h : b.wrap? kind = some b') :
    b'.row = b.row := by
  unfold wrap? at h
  split at h
  · cases h
  · rename_i last others hchildren
    cases h
    unfold row before
    simp [hchildren]

/-- The nodes of a tree under construction that are finished, in document order. -/
def finished (b : Builder) : List Node := b.row.flatMap Node.preorder

/-- What is in the row is finished. -/
theorem mem_finished_of_mem_row {b : Builder} {n : Node} (h : n ∈ b.row) : n ∈ b.finished :=
  List.mem_flatMap.mpr ⟨n, h, n.self_mem_preorder⟩

/-- The children of a finished node are finished. -/
theorem mem_finished_of_mem_children {b : Builder} {n c : Node} (h : n ∈ b.finished)
    (hc : c ∈ n.children) : c ∈ b.finished := by
  obtain ⟨m, hm, hn⟩ := List.mem_flatMap.mp h
  exact List.mem_flatMap.mpr ⟨m, hm, Node.mem_preorder_of_mem_children hn hc⟩

/-- A leaf is one more finished node. -/
theorem finished_leaf_perm (b : Builder) (kind : Node.Kind) (span : Span) :
    (b.leaf kind span).finished.Perm (⟨b.next, kind, span, []⟩ :: b.finished) := by
  unfold finished
  rw [row_leaf, List.flatMap_append, List.flatMap_singleton, Node.preorder_eq, List.flatMap_nil]
  exact List.perm_append_singleton _ _

/-- A node that is closed is one more finished node. -/
theorem finished_leave_perm {b : Builder} (ho : b.outer ≠ []) (stop : Nat) :
    (b.leave stop).finished.Perm (b.top.close stop :: b.finished) := by
  unfold finished
  rw [row_leave ho, row, List.flatMap_append, List.flatMap_append, List.flatMap_singleton,
    Node.preorder_eq]
  exact List.perm_middle

/-- A leaf is finished at once, and nothing else is. -/
theorem mem_finished_leaf {b : Builder} {kind : Node.Kind} {span : Span} {n : Node} :
    n ∈ (b.leaf kind span).finished ↔ n = ⟨b.next, kind, span, []⟩ ∨ n ∈ b.finished :=
  (b.finished_leaf_perm kind span).mem_iff.trans List.mem_cons

/-- Closing a node finishes it, and nothing else. -/
theorem mem_finished_leave {b : Builder} (ho : b.outer ≠ []) (stop : Nat) {n : Node} :
    n ∈ (b.leave stop).finished ↔ n = b.top.close stop ∨ n ∈ b.finished :=
  (finished_leave_perm ho stop).mem_iff.trans List.mem_cons

end Builder

/-- The nodes of a tree are its root and what was finished when only the root was open. -/
theorem Node.mem_preorder_iff_finished {root n : Node} {b : Builder} (h : root.children = b.row) :
    n ∈ root.preorder ↔ n = root ∨ n ∈ b.finished := by
  rw [Node.preorder_eq, h, List.mem_cons, Builder.finished]

end GolfAssist
