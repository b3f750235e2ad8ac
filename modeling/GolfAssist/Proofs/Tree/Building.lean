import GolfAssist.Proofs.Layout
import GolfAssist.Proofs.Tree.Entries

/-!
# Any moves build a tree

* `Builder.makings` — the moves of a list that make a node, each with the number of its node.
* `Builder.numbers` — the numbers of all nodes of a tree under construction, in document order. One
  equation for each move says what it does to them.
* `Builder.Grown` — what holds of a tree under construction after any moves: `Builder.Grown.run`.
* `Builder.Made` — what that says about the finished tree: `Builder.Grown.finish`.
* `Builder.any_moves_build_a_tree` — what is finished is a tree by its numbers, each number is in it
  once, and nodes that were opened cover what is below them.

Three of the moves add a number at the end, or none. Wrapping puts a number into the middle, in
front of those of a subtree that stands last. So numbers are in document order but for the nodes
that came to be by wrapping, and all of them are there once.
-/

namespace GolfAssist

/-! ## Moves that make nodes -/

namespace Edit

/-- The move opens a node around another one. -/
def wraps : Edit → Bool
  | .wrap _ => true
  | _ => false

/-- The move opens a node. -/
def opens : Edit → Bool
  | .enter _ _ | .wrap _ => true
  | _ => false

end Edit

namespace Builder

/-- The moves of a list that make a node, each with the number of its node. -/
def makings (b : Builder) (edits : List Edit) : List (Edit × Nat) :=
  (edits.zip (b.trace edits)).filterMap fun (e, made, _) => made.map (e, ·)

/-- The numbers of the nodes that were made by moves of a sort. -/
def numbersOf (p : Edit → Bool) (made : List (Edit × Nat)) : List Nat :=
  (made.filter (p ·.1)).map (·.2)

/-- One move, and then the others. -/
theorem makings_cons (b : Builder) (e : Edit) (edits : List Edit) :
    b.makings (e :: edits) =
      ((b.apply e).2.map (e, ·)).toList ++ (b.apply e).1.makings edits := by
  rw [makings, trace, List.zip_cons_cons, List.filterMap_cons]
  cases (b.apply e).2 <;> rfl

/-- A move of the sort adds its number. -/
theorem numbersOf_snoc_of_pos {p : Edit → Bool} {e : Edit} (h : p e) (made : List (Edit × Nat))
    (id : Nat) : numbersOf p (made ++ [(e, id)]) = numbersOf p made ++ [id] := by
  simp [numbersOf, h]

/-- A move of another sort adds none. -/
theorem numbersOf_snoc_of_neg {p : Edit → Bool} {e : Edit} (h : p e = false)
    (made : List (Edit × Nat)) (id : Nat) :
    numbersOf p (made ++ [(e, id)]) = numbersOf p made := by
  simp [numbersOf, h]

/-- Numbers of moves of a sort are numbers of moves. -/
theorem numbersOf_subset (p : Edit → Bool) (made : List (Edit × Nat)) :
    numbersOf p made ⊆ made.map (·.2) :=
  List.map_subset _ (List.filter_subset_self _)

end Builder

/-! ## Numbers in document order -/

/-- The numbers of an open node and of all that is below it, in document order. -/
def Frame.numbers (f : Frame) : List Nat :=
  f.id :: f.children.reverse.flatMap fun n => n.preorder.map (·.id)

/-- A new child comes last. -/
theorem Frame.numbers_push (f : Frame) (n : Node) :
    (f.push n).numbers = f.numbers ++ n.preorder.map (·.id) := by
  simp [numbers, push]

/-- Closing a node does not change the numbers. -/
theorem Frame.map_id_preorder_close (f : Frame) (stop : Nat) :
    (f.close stop).preorder.map (·.id) = f.numbers := by
  rw [Node.preorder_eq, List.map_cons, List.map_flatMap]
  rfl

namespace Builder

variable {b b' : Builder}

/-- The numbers of all nodes of a tree under construction, in document order. -/
def numbers (b : Builder) : List Nat := b.outer.reverse.flatMap Frame.numbers ++ b.top.numbers

/-- A leaf has the last number. -/
theorem numbers_leaf (b : Builder) (kind : Node.Kind) (span : Span) :
    (b.leaf kind span).numbers = b.numbers ++ [b.next] := by
  simp [numbers, leaf, Frame.numbers_push, Node.preorder_eq]

/-- A node that is opened has the last number. -/
theorem numbers_enter (b : Builder) (kind : Node.Kind) (start : Nat) :
    (b.enter kind start).numbers = b.numbers ++ [b.next] := by
  simp [numbers, enter, Frame.numbers]

/-- Closing a node does not change the numbers. -/
theorem numbers_leave (b : Builder) (stop : Nat) : (b.leave stop).numbers = b.numbers := by
  unfold leave
  split
  · rfl
  · rename_i f outer houter
    simp [numbers, houter, Frame.numbers_push, Frame.map_id_preorder_close]

/-- Wrapping puts a number in front of those of the last child. -/
theorem numbers_wrap {kind : Node.Kind} (h : b.wrap? kind = some b') :
    ∃ front back, b.numbers = front ++ back ∧ b'.numbers = front ++ b.next :: back := by
  unfold wrap? at h
  split at h
  · cases h
  · rename_i last others hchildren
    cases h
    refine ⟨b.outer.reverse.flatMap Frame.numbers ++
      Frame.numbers { b.top with children := others }, last.preorder.map (·.id), ?_, ?_⟩
    · simp [numbers, Frame.numbers, hchildren]
    · simp [numbers, Frame.numbers]

/-- The numbers of finished nodes are among the numbers. -/
theorem mem_numbers_of_mem_finished {n : Node} (h : n ∈ b.finished) : n.id ∈ b.numbers := by
  obtain ⟨m, hm, hn⟩ := List.mem_flatMap.mp h
  have hframe : ∀ f : Frame, m ∈ f.children → n.id ∈ f.numbers := by
    intro f hf
    apply List.mem_cons_of_mem
    exact List.mem_flatMap.mpr ⟨m, List.mem_reverse.mpr hf, List.mem_map_of_mem hn⟩
  rcases List.mem_append.mp hm with hm | hm
  · obtain ⟨f, hf, hmf⟩ := List.mem_flatMap.mp hm
    apply List.mem_append_left
    exact List.mem_flatMap.mpr ⟨f, hf, hframe f (List.mem_reverse.mp hmf)⟩
  · apply List.mem_append_right
    exact hframe b.top (List.mem_reverse.mp hm)

end Builder

/-! ## What any moves keep -/

/-- The span of the node is in order and reaches as far as those of its children. -/
structure Node.Covers (n : Node) : Prop where
  /-- The node does not end before it starts. -/
  start_le_stop : n.span.start ≤ n.span.stop
  /-- No child ends behind it. -/
  stop_le_stop : ∀ c ∈ n.children, c.span.stop ≤ n.span.stop

/-- A node that is closed covers its children. -/
theorem Frame.covers_close (f : Frame) (stop : Nat) : (f.close stop).Covers := by
  refine ⟨Nat.le_max_right _ _, fun c hc => ?_⟩
  have hreach := stop_le_reach (List.mem_reverse.mp hc)
  show c.span.stop ≤ max (max stop f.reach) f.start
  omega

/-- The last of the open nodes is the root. -/
def Frame.EndInRoot : List Frame → Prop
  | [] => False
  | [f] => f.id = 0 ∧ f.kind = .program ∧ f.start = 0
  | _ :: f :: fs => EndInRoot (f :: fs)

/-- Nothing but the number, the kind and the start of the first open node counts for that. -/
theorem Frame.EndInRoot.congr {f g : Frame} {fs : List Frame} (h : EndInRoot (f :: fs))
    (hid : g.id = f.id) (hkind : g.kind = f.kind) (hstart : g.start = f.start) :
    EndInRoot (g :: fs) := by
  cases fs with
  | nil => exact ⟨hid ▸ h.1, hkind ▸ h.2.1, hstart ▸ h.2.2⟩
  | cons o fs => exact h

namespace Builder

/-- What holds of a tree under construction, when the nodes in it have been made by the moves
`made`. -/
structure Grown (length : Nat) (made : List (Edit × Nat)) (b : Builder) : Prop where
  /-- The source keeps its length. -/
  length_eq : b.length = length
  /-- The root stays open around all others. -/
  root : Frame.EndInRoot (b.top :: b.outer)
  /-- With that of the root, nodes get the numbers from zero on. -/
  made_eq : 0 :: made.map (·.2) = List.range b.next
  /-- Each of these numbers is there once. -/
  perm : b.numbers.Perm (List.range b.next)
  /-- But for the nodes made by wrapping, numbers increase in document order. -/
  ordered : (b.numbers.filter (· ∉ numbersOf Edit.wraps made)).Pairwise (· < ·)
  /-- What has been opened and is finished covers what is below it. -/
  covers : ∀ n ∈ b.finished, n.id ∈ numbersOf Edit.opens made → n.Covers

namespace Grown

variable {length : Nat} {made : List (Edit × Nat)} {b b' : Builder}

/-- Before the first move there is the root alone. -/
theorem start (length : Nat) : Grown length [] (Builder.start length) := by
  refine ⟨rfl, ⟨rfl, rfl, rfl⟩, rfl, .refl _, ?_, ?_⟩
  · exact List.pairwise_singleton _ _
  · intro n hn
    cases hn

/-- All numbers are smaller than the next one. -/
theorem lt_next (h : Grown length made b) {i : Nat} (hi : i ∈ b.numbers) : i < b.next :=
  List.mem_range.mp (h.perm.subset hi)

/-- No node has been made with the next number. -/
theorem next_not_mem (h : Grown length made b) (p : Edit → Bool) : b.next ∉ numbersOf p made := by
  intro hmem
  have hmade := List.mem_cons_of_mem 0 (numbersOf_subset p made hmem)
  rw [h.made_eq] at hmade
  exact Nat.lt_irrefl _ (List.mem_range.mp hmade)

/-- One more node gets the next number. -/
theorem made_eq_snoc (h : Grown length made b) (e : Edit) :
    0 :: (made ++ [(e, b.next)]).map (·.2) = List.range (b.next + 1) := by
  rw [List.map_append, ← List.cons_append, h.made_eq, List.range_succ]
  rfl

/-- A number that is added at the end increases the order. -/
theorem ordered_snoc (h : Grown length made b) {e : Edit} (he : e.wraps = false)
    (hb : b'.numbers = b.numbers ++ [b.next]) :
    (b'.numbers.filter (· ∉ numbersOf Edit.wraps (made ++ [(e, b.next)]))).Pairwise (· < ·) := by
  rw [numbersOf_snoc_of_neg he, hb, List.filter_append]
  refine List.pairwise_append.mpr ⟨h.ordered, ?_, ?_⟩
  · exact (List.pairwise_singleton _ _).sublist List.filter_sublist
  · intro i hi j hj
    obtain rfl := List.mem_singleton.mp (List.mem_filter.mp hj).1
    exact h.lt_next (List.mem_filter.mp hi).1

/-- A number that is added at the end is one more. -/
theorem perm_snoc (h : Grown length made b) (hb : b'.numbers = b.numbers ++ [b.next]) :
    b'.numbers.Perm (List.range (b.next + 1)) := by
  rw [hb, List.range_succ]
  exact h.perm.append_right _

/-- What is finished is not touched by a node that is opened. -/
theorem covers_snoc (h : Grown length made b) {e : Edit} (he : e.opens) (hb : b'.row = b.row) :
    ∀ n ∈ b'.finished, n.id ∈ numbersOf Edit.opens (made ++ [(e, b.next)]) → n.Covers := by
  intro n hn hid
  rw [finished, hb] at hn
  rw [numbersOf_snoc_of_pos he] at hid
  rcases List.mem_append.mp hid with hid | hid
  · exact h.covers n hn hid
  · have hlt := h.lt_next (mem_numbers_of_mem_finished hn)
    exact absurd (List.mem_singleton.mp hid) (Nat.ne_of_lt hlt)

theorem leaf (h : Grown length made b) (kind : Node.Kind) (span : Span) :
    Grown length (made ++ [(.leaf kind span, b.next)]) (b.leaf kind span) := by
  have hnumbers := numbers_leaf b kind span
  refine ⟨h.length_eq, h.root.congr rfl rfl rfl, h.made_eq_snoc _, h.perm_snoc hnumbers,
    h.ordered_snoc rfl hnumbers, ?_⟩
  intro n hn hid
  rw [numbersOf_snoc_of_neg rfl] at hid
  rcases mem_finished_leaf.mp hn with rfl | hn
  · exact absurd hid (h.next_not_mem _)
  · exact h.covers n hn hid

theorem enter (h : Grown length made b) (kind : Node.Kind) (start : Nat) :
    Grown length (made ++ [(.enter kind start, b.next)]) (b.enter kind start) := by
  have hnumbers := numbers_enter b kind start
  exact ⟨h.length_eq, h.root, h.made_eq_snoc _, h.perm_snoc hnumbers, h.ordered_snoc rfl hnumbers,
    h.covers_snoc rfl (row_enter b kind start)⟩

theorem leave (h : Grown length made b) (stop : Nat) : Grown length made (b.leave stop) := by
  have hnumbers := numbers_leave b stop
  rcases houter : b.outer with _ | ⟨f, outer⟩
  · rwa [Builder.leave, houter]
  · have hne : b.outer ≠ [] := by simp [houter]
    have hleave : b.leave stop = { b with top := f.push (b.top.close stop), outer } := by
      rw [Builder.leave, houter]
    have hroot := h.root
    rw [houter] at hroot
    refine ⟨?_, ?_, ?_, ?_, ?_, ?_⟩
    · rw [hleave]
      exact h.length_eq
    · rw [hleave]
      exact Frame.EndInRoot.congr (f := f) hroot rfl rfl rfl
    · rw [hleave]
      exact h.made_eq
    · rw [hnumbers, hleave]
      exact h.perm
    · rw [hnumbers]
      exact h.ordered
    · intro n hn hid
      rcases (mem_finished_leave hne stop).mp hn with rfl | hn
      · exact b.top.covers_close stop
      · exact h.covers n hn hid

theorem wrap (h : Grown length made b) {kind : Node.Kind} (hb : b.wrap? kind = some b') :
    Grown length (made ++ [(.wrap kind, b.next)]) b' := by
  obtain ⟨front, back, hbefore, hafter⟩ := numbers_wrap hb
  have hrow := row_wrap hb
  have hfields : b'.length = b.length ∧ b'.next = b.next + 1 ∧
      (Frame.EndInRoot (b.top :: b.outer) → Frame.EndInRoot (b'.top :: b'.outer)) := by
    unfold wrap? at hb
    split at hb
    · cases hb
    · rename_i last others hchildren
      cases hb
      refine ⟨rfl, rfl, fun hroot => ?_⟩
      show Frame.EndInRoot ({ b.top with children := others } :: b.outer)
      exact hroot.congr rfl rfl rfl
  obtain ⟨hlength, hnext, hroot⟩ := hfields
  refine ⟨hlength.trans h.length_eq, hroot h.root, ?_, ?_, ?_, h.covers_snoc rfl hrow⟩
  · rw [hnext]
    exact h.made_eq_snoc _
  · rw [hafter, hnext, List.range_succ]
    have hperm := h.perm
    rw [hbefore] at hperm
    exact List.perm_middle.trans ((hperm.cons _).trans (List.perm_append_singleton _ _).symm)
  · -- the new number is left out, and nothing changes about the others
    have hwraps : numbersOf Edit.wraps (made ++ [(.wrap kind, b.next)]) =
        numbersOf Edit.wraps made ++ [b.next] := numbersOf_snoc_of_pos rfl made b.next
    have hfilter : b'.numbers.filter (· ∉ numbersOf Edit.wraps made ++ [b.next]) =
        b.numbers.filter (· ∉ numbersOf Edit.wraps made) := by
      rw [hafter, List.filter_append, List.filter_cons_of_neg (by simp), ← List.filter_append,
        ← hbefore]
      apply List.filter_congr
      intro i hi
      have hne : i ≠ b.next := Nat.ne_of_lt (h.lt_next hi)
      simp [hne]
    rw [hwraps, hfilter]
    exact h.ordered

/-- **One move.** -/
theorem apply (h : Grown length made b) (e : Edit) :
    Grown length (made ++ ((b.apply e).2.map (e, ·)).toList) (b.apply e).1 := by
  cases e with
  | leaf kind span => exact h.leaf kind span
  | enter kind start => exact h.enter kind start
  | leave stop =>
      show Grown length (made ++ []) (b.leave stop)
      rw [List.append_nil]
      exact h.leave stop
  | wrap kind =>
      rw [Builder.apply]
      split
      · exact h.wrap ‹_›
      · show Grown length (made ++ []) b
        rwa [List.append_nil]

/-- **Any number of moves.** -/
theorem run (h : Grown length made b) (edits : List Edit) :
    Grown length (made ++ b.makings edits) (b.run edits) := by
  induction edits generalizing made b with
  | nil =>
      show Grown length (made ++ []) b
      rwa [List.append_nil]
  | cons e edits ih =>
      rw [makings_cons, ← List.append_assoc]
      exact ih (h.apply e)

end Grown

/-! ## Finished trees -/

/-- Closing a node at the end of the source does not change what is finished. -/
theorem finish_leave (b : Builder) : (b.leave b.length).finish = b.finish := by
  rw [leave]
  split
  · rfl
  · rename_i f outer houter
    rw [finish, finish, houter]
    rfl

/-- All nodes but the root can be closed without a change to what is finished. -/
theorem Grown.exists_outer_nil {length : Nat} {made : List (Edit × Nat)} {b : Builder}
    (h : Grown length made b) :
    ∃ b', Grown length made b' ∧ b'.outer = [] ∧ b'.finish = b.finish := by
  induction houter : b.outer generalizing b with
  | nil => exact ⟨b, h, houter, rfl⟩
  | cons f outer ih =>
      have hleave : (b.leave b.length).outer = outer := by rw [Builder.leave, houter]
      obtain ⟨b', hb', hnil, hfinish⟩ := ih (h.leave b.length) hleave
      exact ⟨b', hb', hnil, hfinish.trans (finish_leave b)⟩

/-- What holds of a finished tree, when the nodes in it have been made by the moves `made`. -/
structure Made (length : Nat) (made : List (Edit × Nat)) (root : Node) : Prop where
  /-- The root has the number zero. -/
  id : root.id = 0
  /-- It stands for the program. -/
  kind : root.kind = .program
  /-- It covers the source. -/
  span : root.span = ⟨0, length⟩
  /-- With that of the root, nodes have got the numbers from zero on. -/
  made_eq : 0 :: made.map (·.2) = List.range root.size
  /-- Each of these numbers is there once. -/
  perm : (root.preorder.map (·.id)).Perm (List.range root.size)
  /-- But for the nodes made by wrapping, numbers increase in document order. -/
  ordered : ((root.preorder.map (·.id)).filter (· ∉ numbersOf Edit.wraps made)).Pairwise (· < ·)
  /-- What has been opened covers what is below it. -/
  covers : ∀ n ∈ root.preorder, n.id ∈ numbersOf Edit.opens made → n.Covers

/-- The root is not made by a move. -/
theorem Grown.zero_not_mem {length : Nat} {made : List (Edit × Nat)} {b : Builder}
    (h : Grown length made b) (p : Edit → Bool) : 0 ∉ numbersOf p made := by
  have hnodup : (0 :: made.map (·.2)).Nodup := h.made_eq ▸ List.nodup_range
  exact fun hmem => (List.nodup_cons.mp hnodup).1 (numbersOf_subset p made hmem)

/-- **Finishing.** The numbers of a tree under construction are those of the finished one. -/
theorem Grown.finish {length : Nat} {made : List (Edit × Nat)} {b : Builder}
    (h : Grown length made b) : b.finish.size = b.next ∧ Made length made b.finish := by
  obtain ⟨b', hb', hnil, hfinish⟩ := h.exists_outer_nil
  have hnext : b'.next = b.next := by
    simpa using congrArg List.length (hb'.made_eq.symm.trans h.made_eq)
  have hroot := hb'.root
  rw [hnil] at hroot
  obtain ⟨hid, hkind, hstart⟩ := hroot
  have heq : b.finish = ⟨b'.top.id, b'.top.kind, ⟨b'.top.start, b'.length⟩,
      b'.top.children.reverse⟩ := by
    rw [← hfinish, Builder.finish, hnil]
    rfl
  have hnumbers : b.finish.preorder.map (·.id) = b'.numbers := by
    rw [heq, Node.preorder_eq, List.map_cons, List.map_flatMap, numbers, hnil]
    rfl
  have hsize : b.finish.size = b'.next := by
    have hlength := hb'.perm.length_eq
    rwa [← hnumbers, List.length_map, Node.preorder, List.length_map, List.length_range] at hlength
  have hrow : b.finish.children = b'.row := by
    rw [heq, row, before, hnil]
    rfl
  refine ⟨hsize.trans hnext, ?_, ?_, ?_, ?_, ?_, ?_, ?_⟩
  · rw [heq]
    exact hid
  · rw [heq]
    exact hkind
  · rw [heq, hstart, hb'.length_eq]
  · rw [hsize]
    exact hb'.made_eq
  · rw [hsize, hnumbers]
    exact hb'.perm
  · rw [hnumbers]
    exact hb'.ordered
  · intro n hn hopened
    rcases (Node.mem_preorder_iff_finished hrow).mp hn with rfl | hn
    · rw [heq, hid] at hopened
      exact absurd hopened (hb'.zero_not_mem _)
    · exact hb'.covers n hn hopened

/-- **Any moves build a tree.** Whatever the moves, what is finished after them has the root as its
only node without a parent, the root stands for the program and covers the source, every other node
is once among the children of its parent and nowhere else, and parents lead to the root. The numbers
from zero on are given in the order of the moves, each is there once, and they increase in document
order but for nodes made by wrapping. Nodes that were opened cover what is below them. -/
theorem any_moves_build_a_tree (length : Nat) (edits : List Edit) :
    let root := ((start length).run edits).finish
    let made := (start length).makings edits
    Node.Entry.FormTree 0 root.entries ∧ Made length made root := by
  intro root made
  have hmade : Made length made root := ((Grown.start length).run edits).finish.2
  have hnodup : (root.preorder.map (·.id)).Nodup := hmade.perm.nodup_iff.mpr List.nodup_range
  have htree := Node.entries_formTree hnodup
  rw [hmade.id] at htree
  exact ⟨htree, hmade⟩

/-- A node made by wrapping stands in front of what it is around, with the higher number. -/
example :
    (((start 4).run [.leaf .variable ⟨0, 1⟩, .wrap .typedExpr, .leaf .colon ⟨1, 2⟩, .leave 2,
      .leave 2]).finish.preorder.map (·.id)) = [0, 2, 1, 3] := by
  decide

end Builder

/-! ## Trees of documents -/

open Builder

/-- Every act is made of moves. -/
theorem Draft.Act.exists_edits {d d' : Draft} (h : Act d d') :
    ∃ edits, d'.builder = d.builder.run edits := by
  cases h with
  | place => exact ⟨[.leaf _ _], rfl⟩
  | reject => exact ⟨[.leaf _ _], rfl⟩
  | enter => exact ⟨[.enter _ _, .leaf _ _], rfl⟩
  | complete => exact ⟨[.leaf _ _, .leave _], rfl⟩
  | wrap hb _ _ =>
      refine ⟨[.wrap .typedExpr], ?_⟩
      rw [run, List.foldl_cons, List.foldl_nil, Builder.apply, hb]
  | conclude => exact ⟨[.leave _], rfl⟩
  | forgo => exact ⟨[.leave _], rfl⟩
  | breakOff => exact ⟨[.leave _], rfl⟩
  | complain => exact ⟨[], rfl⟩

namespace Document

/-- So is what the reader has built at the end of a source. -/
theorem exists_edits (source : String) :
    ∃ edits,
      (reader source).builder = (Builder.start (Text.byteLength source.toList)).run edits := by
  refine of_acts (I := fun d => ∃ edits, d.builder = (Builder.start _).run edits) ⟨[], rfl⟩ ?_
  rintro d d' - hact ⟨edits, hd⟩
  obtain ⟨more, hmore⟩ := hact.exists_edits
  refine ⟨edits ++ more, ?_⟩
  rw [hmore, hd, run, run, run, List.foldl_append]

/-- The reader at the end of a source has given as many numbers as the tree has nodes. -/
theorem next_reader (source : String) :
    (reader source).builder.next = (read source).tree.size := by
  obtain ⟨edits, hedits⟩ := exists_edits source
  have hgrown := (Grown.start (Text.byteLength source.toList)).run edits
  rw [← hedits] at hgrown
  exact hgrown.finish.1.symm

end Document

end GolfAssist
