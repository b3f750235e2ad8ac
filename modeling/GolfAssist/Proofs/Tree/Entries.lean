import GolfAssist.Proofs.Tree.Preorder
import Mathlib.Data.List.Nodup
import Mathlib.Data.List.Pairwise
import Mathlib.Data.List.Perm.Basic
import Mathlib.Logic.Relation

/-!
# Trees by the numbers of their nodes

* `Node.Entry`, `Node.entries` — what a tree says about each of its nodes in numbers: the node, its
  kind, its parent and its children.
* `Node.Entry.FormTree` — entries that fit together as a tree: one of them has no parent, every
  other one is once among the children of its parent and nowhere else, and parents lead to the root.
* `Node.entries_formTree` — the entries of a tree do so, if no number is given twice.

A tree that is given by its root cannot help being one, but whoever is told numbers only has to rely
on more. What it takes is that the numbers are different: all lists of children together are the
nodes below the root, each of them once (`Node.flatMap_children_preorder_perm`), and then a number
stands in one list only.
-/

namespace GolfAssist.Node

open scoped List

/-! ## Entries -/

/-- What a tree says about one of its nodes in numbers. -/
structure Entry where
  /-- The number of the node. -/
  id : Nat
  /-- What the node stands for. -/
  kind : Kind
  /-- The number of the node directly above, which the root does not have. -/
  parent? : Option Nat
  /-- The numbers of the nodes directly below, in document order. -/
  children : List Nat
deriving DecidableEq, Repr

/-- What the tree says about the node of a place. -/
def Path.entry (p : Path) : Entry :=
  ⟨p.node.id, p.node.kind, p.parent?.map (·.id), p.node.children.map (·.id)⟩

/-- What the tree says about its nodes, in document order. -/
def entries (root : Node) : List Entry := root.paths.map (·.entry)

namespace Entry

/-- The node with the number `parent` is directly above the one with the number `child`. -/
def HasParent (entries : List Entry) (child parent : Nat) : Prop :=
  ∃ e ∈ entries, e.id = child ∧ e.parent? = some parent

/-- The entries fit together as a tree, with the given number at its root. -/
structure FormTree (root : Nat) (entries : List Entry) : Prop where
  /-- No number is given twice. -/
  nodup : (entries.map (·.id)).Nodup
  /-- The root has no parent, and every other node has one. -/
  orphan : ∀ e ∈ entries, e.parent? = none ↔ e.id = root
  /-- Any other node is once among the children of its parent, and not among those of another
  node. -/
  child : ∀ e ∈ entries, e.id ≠ root → ∃ q ∈ entries, e.parent? = some q.id ∧
    ∀ f ∈ entries, f.children.count e.id = if f.id = q.id then 1 else 0
  /-- What is among the children of a node is a node, and has it for its parent. -/
  parent : ∀ q ∈ entries, ∀ c ∈ q.children, HasParent entries c q.id
  /-- From parent to parent, every node leads to the root. -/
  rooted : ∀ e ∈ entries, Relation.ReflTransGen (HasParent entries) e.id root

end Entry

/-- Entries come in the order of the nodes. -/
theorem map_id_entries (root : Node) : root.entries.map (·.id) = root.preorder.map (·.id) := by
  rw [entries, preorder, List.map_map, List.map_map]
  rfl

/-! ## Children of all nodes -/

/-- All children of all nodes are the nodes below the root. -/
theorem flatMap_children_preorder_perm (root : Node) :
    (root.preorder.flatMap (·.children)).Perm root.preorder.tail := by
  induction root using induct with
  | step root ih =>
      have hcons : ∀ c : Node, c :: c.preorder.tail = c.preorder := by
        intro c
        rw [preorder_eq, List.tail_cons]
      calc root.preorder.flatMap (·.children)
          = (root.children.map fun c => c) ++
              root.children.flatMap fun c => c.preorder.flatMap (·.children) := by
            rw [preorder_eq, List.flatMap_cons, List.flatMap_assoc, List.map_id_fun']
            rfl
        _ ~ root.children.flatMap fun c => c :: c.preorder.flatMap (·.children) :=
            List.map_append_flatMap_perm _ _ _
        _ ~ root.children.flatMap preorder := by
            apply List.Perm.flatMap_left
            intro c hc
            have hperm := (ih c hc).cons c
            rwa [hcons c] at hperm
        _ = root.preorder.tail := by rw [preorder_eq, List.tail_cons]

variable {root : Node}

/-- Where numbers are different, so are those of all children of all nodes. -/
theorem nodup_flatMap_children (h : (root.preorder.map (·.id)).Nodup) :
    (root.preorder.flatMap fun n => n.children.map (·.id)).Nodup := by
  have hperm := (flatMap_children_preorder_perm root).map (·.id)
  rw [List.map_flatMap] at hperm
  rw [hperm.nodup_iff, List.map_tail]
  exact h.tail

/-- Where numbers are different, a number is once among the children of one node and not among
those of another. -/
theorem count_children (h : (root.preorder.map (·.id)).Nodup) {m n c : Node}
    (hm : m ∈ root.preorder) (hn : n ∈ root.preorder) (hc : c ∈ n.children) :
    (m.children.map (·.id)).count c.id = if m.id = n.id then 1 else 0 := by
  have hmem : c.id ∈ n.children.map (·.id) := List.mem_map_of_mem hc
  obtain ⟨hnodup, hapart⟩ := List.nodup_flatMap.mp (nodup_flatMap_children h)
  split
  · rename_i hid
    obtain rfl : m = n := List.inj_on_of_nodup_map h hm hn hid
    exact List.count_eq_one_of_mem (hnodup m hm) hmem
  · rename_i hid
    have hsymm : Std.Symm fun a b : Node =>
        List.Disjoint (a.children.map (·.id)) (b.children.map (·.id)) :=
      ⟨fun _ _ hab _ hb ha => hab ha hb⟩
    have hdisjoint := List.Pairwise.forall hapart hm hn fun heq => hid (congrArg Node.id heq)
    exact List.count_eq_zero.mpr fun hc' => hdisjoint hc' hmem

/-! ## Entries form a tree -/

/-- A place of a tree is its root, or one of the places below. -/
theorem mem_paths_iff {p : Path} : p ∈ root.paths ↔ p = ⟨root, []⟩ ∨ p ∈ root.paths.tail := by
  rw [paths_eq, List.mem_cons, List.tail_cons]

/-- The parent of a place that hangs below another one. -/
theorem parent?_of_above {p q : Path} (h : p.above = q.ancestors) : p.parent? = some q.node := by
  rw [Path.parent?, h]
  rfl

/-- Where numbers are different, no place below the root has its number. -/
theorem id_ne_of_mem_tail_paths (h : (root.preorder.map (·.id)).Nodup) {p : Path}
    (hp : p ∈ root.paths.tail) : p.node.id ≠ root.id := by
  rw [preorder, paths_eq, List.map_cons, List.map_cons] at h
  rw [paths_eq, List.tail_cons] at hp
  intro hid
  apply (List.nodup_cons.mp h).1
  rw [← hid]
  exact List.mem_map_of_mem (List.mem_map_of_mem hp)

/-- Where numbers are different, a place below the root has a parent, and is once among its children
and not among those of another node. -/
theorem exists_parent_count (h : (root.preorder.map (·.id)).Nodup) {p : Path}
    (hp : p ∈ root.paths.tail) : ∃ q ∈ root.paths, p.parent? = some q.node ∧
      ∀ n ∈ root.preorder,
        (n.children.map (·.id)).count p.node.id = if n.id = q.node.id then 1 else 0 := by
  obtain ⟨q, hq, habove, hmem⟩ := exists_place_of_mem_tail_paths hp
  refine ⟨q, hq, parent?_of_above habove, fun n hn => ?_⟩
  exact count_children h hn (node_mem_preorder hq) hmem

/-- From parent to parent, every place leads to the root. -/
theorem rooted_of_mem_paths {p : Path} (hp : p ∈ root.paths) :
    Relation.ReflTransGen (Entry.HasParent root.entries) p.node.id root.id := by
  -- on the nodes above, which are one fewer for the place above
  induction habove : p.above generalizing p with
  | nil =>
      rcases mem_paths_iff.mp hp with rfl | htail
      · exact .refl
      · obtain ⟨q, -, hq, -⟩ := exists_place_of_mem_tail_paths htail
        rw [habove] at hq
        cases hq
  | cons a above ih =>
      rcases mem_paths_iff.mp hp with rfl | htail
      · cases habove
      obtain ⟨q, hq, hpq, -⟩ := exists_place_of_mem_tail_paths htail
      have hparent : Entry.HasParent root.entries p.node.id q.node.id := by
        refine ⟨p.entry, List.mem_map_of_mem hp, rfl, ?_⟩
        rw [Path.entry, parent?_of_above hpq]
        rfl
      rw [hpq] at habove
      exact .head hparent (ih hq (List.cons.inj habove).2)

/-- **A tree is one by its numbers.** If no number is given twice, the entries of a tree fit
together as a tree. -/
theorem entries_formTree (h : (root.preorder.map (·.id)).Nodup) :
    Entry.FormTree root.id root.entries := by
  refine ⟨?_, ?_, ?_, ?_, ?_⟩
  · rw [map_id_entries]
    exact h
  · intro e he
    obtain ⟨p, hp, rfl⟩ := List.mem_map.mp he
    rcases mem_paths_iff.mp hp with rfl | htail
    · exact iff_of_true rfl rfl
    · obtain ⟨q, -, hparent, -⟩ := exists_parent_count h htail
      refine iff_of_false ?_ (id_ne_of_mem_tail_paths h htail)
      rw [Path.entry, hparent]
      simp
  · intro e he hid
    obtain ⟨p, hp, rfl⟩ := List.mem_map.mp he
    rcases mem_paths_iff.mp hp with rfl | htail
    · exact absurd rfl hid
    obtain ⟨q, hq, hparent, hcount⟩ := exists_parent_count h htail
    refine ⟨q.entry, List.mem_map_of_mem hq, ?_, fun f hf => ?_⟩
    · rw [Path.entry, hparent]
      rfl
    · obtain ⟨r, hr, rfl⟩ := List.mem_map.mp hf
      exact hcount r.node (node_mem_preorder hr)
  · intro e he i hi
    obtain ⟨q, hq, rfl⟩ := List.mem_map.mp he
    obtain ⟨c, hc, rfl⟩ := List.mem_map.mp hi
    have hbelow : c ∈ root.preorder.tail := by
      apply (flatMap_children_preorder_perm root).subset
      exact List.mem_flatMap.mpr ⟨q.node, node_mem_preorder hq, hc⟩
    rw [preorder, ← List.map_tail] at hbelow
    obtain ⟨p, hp, rfl⟩ := List.mem_map.mp hbelow
    obtain ⟨r, -, hparent, hcount⟩ := exists_parent_count h hp
    have hcount := hcount q.node (node_mem_preorder hq)
    have hpos := List.count_pos_iff.mpr hi
    refine ⟨p.entry, List.mem_map_of_mem (mem_paths_iff.mpr (.inr hp)), rfl, ?_⟩
    rw [Path.entry, hparent]
    by_cases hid : q.node.id = r.node.id
    · exact congrArg some hid.symm
    · rw [if_neg hid] at hcount
      exact absurd hcount (Nat.ne_of_gt hpos)
  · intro e he
    obtain ⟨p, hp, rfl⟩ := List.mem_map.mp he
    exact rooted_of_mem_paths hp

end GolfAssist.Node
