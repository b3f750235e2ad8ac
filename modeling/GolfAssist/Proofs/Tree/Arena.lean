import GolfAssist.Proofs.Tree.Building
import GolfAssist.Tree.Query
import Mathlib.Tactic.Tauto

/-!
# Trees in a table

* `Arena` — a tree under construction as a table of slots, which refer to each other by their
  numbers: a slot has the number of its parent and those of its children.
* `Arena.leaf?`, `Arena.enter?`, `Arena.leave?`, `Arena.wrap?`, `Arena.finish?` — the moves on the
  table. There is no answer where a number is looked up that is not in it.
* `Builder.cells`, `Builder.Holds` — the slots that a builder asks for, and a table that has them
  all: `Builder.Holds.run`.
* `Arena.build?_eq` — whatever the moves, the table holds the tree that is built without it, slot by
  slot, and no number is looked up in vain.

A table is changed in place. A new child is added to a slot that is already there, closing a node
changes its span, and wrapping a node changes two other slots. That a change does not touch any
other slot the builder asks for, is due to the numbers: no two of its nodes have the same one.
-/

namespace GolfAssist

/-! ## Slots -/

/-- What a table says about a node. -/
structure Slot where
  /-- What the node stands for. -/
  kind : Node.Kind
  /-- The part of the source it covers. -/
  span : Span
  /-- The number of the node directly above, which the root does not have. -/
  parent? : Option Nat
  /-- The numbers of the nodes directly below, in document order. -/
  children : List Nat
deriving DecidableEq, Repr

namespace Slot

/-- A node has one more child. -/
def addChild (child : Nat) (s : Slot) : Slot := { s with children := s.children ++ [child] }

/-- The last number of a list is replaced. -/
def replaceLast (i : Nat) : List Nat → List Nat
  | [] => []
  | [_] => [i]
  | j :: k :: js => j :: replaceLast i (k :: js)

/-- Another node takes the place of the last child. -/
def setLastChild (child : Nat) (s : Slot) : Slot :=
  { s with children := replaceLast child s.children }

/-- A node is below another one. -/
def setParent (parent : Nat) (s : Slot) : Slot := { s with parent? := some parent }

/-- A node ends at an offset, unless that leaves out a child or the start. -/
def setStop (stop reach : Nat) (s : Slot) : Slot :=
  { s with span := ⟨s.span.start, max (max stop reach) s.span.start⟩ }

/-- The last number of a list is what stands at its end. -/
theorem replaceLast_concat (i j : Nat) (js : List Nat) :
    replaceLast i (js ++ [j]) = js ++ [i] := by
  induction js with
  | nil => rfl
  | cons k js ih =>
      cases js with
      | nil => rfl
      | cons l js => exact congrArg (k :: ·) ih

end Slot

/-- The slots with one of them changed. There must be one of that number. -/
def change? (slots : List Slot) (i : Nat) (f : Slot → Slot) : Option (List Slot) :=
  if i < slots.length then some (slots.modify i f) else none

/-! ## Tables -/

/-- A tree under construction, in a table. -/
structure Arena where
  /-- The slots of all nodes, by their numbers. -/
  slots : List Slot
  /-- The numbers of the open nodes, from the inside out. -/
  opened : List Nat
deriving DecidableEq, Repr

namespace Arena

/-- Only the root is there, and it is open. -/
def start (length : Nat) : Arena := ⟨[⟨.program, ⟨0, length⟩, none, []⟩], [0]⟩

/-- The number of the innermost open node. -/
def current (a : Arena) : Nat := a.opened.head?.getD 0

/-- A new node is added to the open one. -/
def push? (a : Arena) (kind : Node.Kind) (span : Span) : Option (Arena × Nat) := do
  let id := a.slots.length
  let slots ← change? (a.slots ++ [⟨kind, span, some a.current, []⟩]) a.current (Slot.addChild id)
  some (⟨slots, a.opened⟩, id)

/-- A finished node without children is added to the open one. -/
def leaf? (a : Arena) (kind : Node.Kind) (span : Span) : Option (Arena × Nat) := a.push? kind span

/-- A new node is opened inside the open one. -/
def enter? (a : Arena) (kind : Node.Kind) (start : Nat) : Option (Arena × Nat) := do
  let (pushed, id) ← a.push? kind ⟨start, start⟩
  some (⟨pushed.slots, id :: pushed.opened⟩, id)

/-- The furthest end of nodes, or 0 without nodes. -/
def reach? (slots : List Slot) : List Nat → Option Nat
  | [] => some 0
  | i :: is => do
    let s ← slots[i]?
    let reach ← reach? slots is
    some (max s.span.stop reach)

/-- A node is closed at an end, or further on where its children reach further. -/
def close? (slots : List Slot) (id stop : Nat) : Option (List Slot) := do
  let s ← slots[id]?
  let reach ← reach? slots s.children
  change? slots id (Slot.setStop stop reach)

/-- The open node is closed. The root stays open. -/
def leave? (a : Arena) (stop : Nat) : Option Arena :=
  match a.opened with
  | id :: outer :: opened => do
    let slots ← close? a.slots id stop
    some ⟨slots, outer :: opened⟩
  | _ => some a

/-- A new node is opened around the last child of the open one, if it has a child. -/
def wrap? (a : Arena) (kind : Node.Kind) : Option (Arena × Option Nat) := do
  let parent ← a.slots[a.current]?
  match parent.children.getLast? with
  | none => some (a, none)
  | some last =>
    let child ← a.slots[last]?
    let id := a.slots.length
    let start := child.span.start
    let slots := a.slots ++ [⟨kind, ⟨start, start⟩, some a.current, [last]⟩]
    let slots ← change? slots last (Slot.setParent id)
    let slots ← change? slots a.current (Slot.setLastChild id)
    some (⟨slots, id :: a.opened⟩, some id)

/-- The table after a move, and the number of the node that the move has made. -/
def move? (a : Arena) : Edit → Option (Arena × Option Nat)
  | .leaf kind span => (a.leaf? kind span).map fun (after, id) => (after, some id)
  | .enter kind start => (a.enter? kind start).map fun (after, id) => (after, some id)
  | .leave stop => (a.leave? stop).map fun after => (after, none)
  | .wrap kind => a.wrap? kind

/-- The table after a list of moves, and for each of them the number of the node it has made. -/
def run? (a : Arena) : List Edit → Option (Arena × List (Option Nat))
  | [] => some (a, [])
  | e :: edits => do
    let (after, made) ← a.move? e
    let (last, others) ← run? after edits
    some (last, made :: others)

/-- The slots with all open nodes but the root closed at the end of the root. -/
def closeAll? (slots : List Slot) : List Nat → Option (List Slot)
  | id :: outer :: opened => do
    let root ← slots[0]?
    let slots ← close? slots id root.span.stop
    closeAll? slots (outer :: opened)
  | _ => some slots

/-- The slots of the finished tree. -/
def finish? (a : Arena) : Option (List Slot) := closeAll? a.slots a.opened

/-- The slots of the tree that a list of moves builds, and the numbers of the nodes they have
made. -/
def build? (length : Nat) (edits : List Edit) : Option (List Slot × List (Option Nat)) := do
  let (a, made) ← (start length).run? edits
  let slots ← a.finish?
  some (slots, made)

end Arena

/-! ## What a table has to hold -/

/-- A slot and its number. -/
abbrev Cell := Nat × Slot

namespace Node

mutual

/-- The slots of a tree that hangs below the node of a number. -/
def cells (parent? : Option Nat) : Node → List Cell
  | ⟨id, kind, span, children⟩ =>
    (id, ⟨kind, span, parent?, children.map (·.id)⟩) :: forestCells (some id) children

/-- The slots of neighbouring trees that hang below the node of a number. -/
def forestCells (parent? : Option Nat) : List Node → List Cell
  | [] => []
  | n :: ns => n.cells parent? ++ forestCells parent? ns

end

/-- What a table says about the node of a place. -/
def Path.slot (p : Path) : Slot :=
  ⟨p.node.kind, p.node.span, p.parent?.map (·.id), p.node.children.map (·.id)⟩

mutual

/-- The slots of a tree are those of its places. -/
theorem map_slot_pathsBelow (above : List Node) :
    (n : Node) → (pathsBelow above n).map (fun p => (p.node.id, p.slot)) =
      n.cells (above.head?.map (·.id))
  | ⟨id, kind, span, children⟩ => by
      rw [pathsBelow, cells, List.map_cons, map_slot_forestPaths _ children]
      rfl

/-- The slots of neighbouring trees are those of their places. -/
theorem map_slot_forestPaths (above : List Node) :
    (ns : List Node) → (forestPaths above ns).map (fun p => (p.node.id, p.slot)) =
      forestCells (above.head?.map (·.id)) ns
  | [] => rfl
  | n :: ns => by
      rw [forestPaths, forestCells, List.map_append, map_slot_pathsBelow above n,
        map_slot_forestPaths above ns]

end

variable (parent? : Option Nat)

/-- The slots of neighbouring trees come tree by tree. -/
theorem forestCells_eq (ns : List Node) : forestCells parent? ns = ns.flatMap (cells parent?) := by
  induction ns with
  | nil => rfl
  | cons n ns ih => rw [forestCells, ih, List.flatMap_cons]

/-- The slots of a tree are that of its root and those of the trees below. -/
theorem cells_eq (n : Node) :
    n.cells parent? = (n.id, ⟨n.kind, n.span, parent?, n.children.map (·.id)⟩) ::
      n.children.flatMap (cells (some n.id)) := by
  obtain ⟨id, kind, span, children⟩ := n
  rw [cells, forestCells_eq]

/-- The slots of a tree have the numbers of its nodes. -/
theorem map_fst_cells (n : Node) : (n.cells parent?).map (·.1) = n.preorder.map (·.id) := by
  induction n using induct generalizing parent? with
  | step n ih =>
      rw [cells_eq, preorder_eq, List.map_cons, List.map_cons, List.map_flatMap, List.map_flatMap]
      exact congrArg (n.id :: ·) (List.flatMap_congr fun c hc => ih c hc _)

end Node

/-- What a table says about an open node. It ends where it starts, but for the root. The open node
inside it, if there is one, is the last of its children. -/
def Frame.slot (length : Nat) (f : Frame) (outer : List Frame) (inner? : Option Nat) : Slot :=
  ⟨f.kind, ⟨f.start, if outer.isEmpty then length else f.start⟩, outer.head?.map (·.id),
    f.children.reverse.map (·.id) ++ inner?.toList⟩

/-- A number more is that of one more child. -/
theorem Frame.slot_some (length : Nat) (f : Frame) (outer : List Frame) (inner : Nat) :
    f.slot length outer (some inner) = (f.slot length outer none).addChild inner := by
  simp [slot, Slot.addChild]

/-- So is one more finished child. -/
theorem Frame.slot_push (length : Nat) (f : Frame) (outer : List Frame) (n : Node) :
    (f.push n).slot length outer none = f.slot length outer (some n.id) := by
  simp [slot, push]

/-- The slots of all that is finished in an open node. -/
def Frame.inside (f : Frame) : List Cell := f.children.reverse.flatMap (Node.cells (some f.id))

/-- The slots of open nodes, from the inside out, and of all that is finished in them. -/
def Frame.cells (length : Nat) : (inner? : Option Nat) → List Frame → List Cell
  | _, [] => []
  | inner?, f :: outer =>
    (f.id, f.slot length outer inner?) :: (f.inside ++ cells length (some f.id) outer)

namespace Builder

/-- The slots of a tree under construction. -/
def cells (b : Builder) : List Cell := Frame.cells b.length none (b.top :: b.outer)

/-- The slots have the numbers of the nodes. -/
theorem map_fst_cells_perm (b : Builder) : (b.cells.map (·.1)).Perm b.numbers := by
  have hinside : ∀ f : Frame, f.id :: f.inside.map (·.1) = f.numbers := by
    intro f
    rw [Frame.inside, List.map_flatMap]
    exact congrArg (f.id :: ·) (List.flatMap_congr fun n _ => Node.map_fst_cells _ n)
  have hframes : ∀ (inner? : Option Nat) (fs : List Frame),
      (Frame.cells b.length inner? fs).map (·.1) = fs.flatMap Frame.numbers := by
    intro inner? fs
    induction fs generalizing inner? with
    | nil => rfl
    | cons f fs ih =>
        rw [Frame.cells, List.map_cons, List.map_append, ih, List.flatMap_cons, ← hinside,
          List.cons_append]
  have hnumbers : b.numbers = (b.top :: b.outer).reverse.flatMap Frame.numbers := by
    simp [numbers]
  rw [cells, hframes, hnumbers]
  exact (List.reverse_perm _).symm.flatMap_right _

/-- No number has two slots. -/
theorem Grown.nodup_cells {length : Nat} {made : List (Edit × Nat)} {b : Builder}
    (h : Grown length made b) : (b.cells.map (·.1)).Nodup := by
  rw [(b.map_fst_cells_perm.trans h.perm).nodup_iff]
  exact List.nodup_range

/-- The next number has no slot. -/
theorem Grown.lt_of_mem_cells {length : Nat} {made : List (Edit × Nat)} {b : Builder}
    (h : Grown length made b) {c : Cell} (hc : c ∈ b.cells) : c.1 < b.next :=
  h.lt_next (b.map_fst_cells_perm.subset (List.mem_map_of_mem hc))

end Builder

/-! ## Changes of a table -/

/-- The slots are in the table under their numbers. -/
def Stored (slots : List Slot) (cells : List Cell) : Prop := ∀ c ∈ cells, slots[c.1]? = some c.2

namespace Stored

variable {slots : List Slot} {cells cells' : List Cell} {i : Nat} {s : Slot}

/-- A table that has slots has any of them. -/
theorem subset (h : Stored slots cells) (hsub : cells' ⊆ cells) : Stored slots cells' :=
  fun c hc => h c (hsub hc)

/-- A slot that is added leaves all others as they are. -/
theorem concat (h : Stored slots cells) (s : Slot) :
    Stored (slots ++ [s]) ((slots.length, s) :: cells) := by
  intro c hc
  rcases List.mem_cons.mp hc with rfl | hc
  · exact List.getElem?_concat_length
  · have hslot := h c hc
    obtain ⟨hlt, -⟩ := List.getElem?_eq_some_iff.mp hslot
    rw [List.getElem?_append_left hlt, hslot]

/-- A slot that is changed leaves those of other numbers as they are. -/
theorem change (h : Stored slots ((i, s) :: cells)) (hi : i ∉ cells.map (·.1)) (f : Slot → Slot) :
    ∃ changed, change? slots i f = some changed ∧ changed.length = slots.length ∧
      Stored changed ((i, f s) :: cells) := by
  have hslot : slots[i]? = some s := h (i, s) List.mem_cons_self
  obtain ⟨hlt, -⟩ := List.getElem?_eq_some_iff.mp hslot
  refine ⟨slots.modify i f, if_pos hlt, List.length_modify _ _ _, ?_⟩
  intro c hc
  rcases List.mem_cons.mp hc with rfl | hc
  · rw [List.getElem?_modify_eq, hslot]
    rfl
  · have hne : i ≠ c.1 := fun heq => hi (heq ▸ List.mem_map_of_mem hc)
    rw [List.getElem?_modify_ne _ _ hne]
    exact h c (List.mem_cons_of_mem _ hc)

/-- Wrapping the last child of the open node changes the slots of these two, and adds one. -/
theorem wrap {a : Arena} {j : Nat} {child : Slot}
    (h : Stored a.slots ((i, s) :: (j, child) :: cells)) (hcurrent : a.current = i)
    (hlast : s.children.getLast? = some j)
    (hnodup : (((i, s) :: (j, child) :: cells).map (·.1)).Nodup) (kind : Node.Kind) :
    ∃ slots, a.wrap? kind = some (⟨slots, a.slots.length :: a.opened⟩, some a.slots.length) ∧
      slots.length = a.slots.length + 1 ∧
      Stored slots ((i, s.setLastChild a.slots.length) :: (j, child.setParent a.slots.length) ::
        (a.slots.length, ⟨kind, ⟨child.span.start, child.span.start⟩, some i, [j]⟩) :: cells) := by
  have hparent : a.slots[i]? = some s := h (i, s) List.mem_cons_self
  have hchild : a.slots[j]? = some child := h (j, child) (List.mem_cons_of_mem _ List.mem_cons_self)
  have hi := (List.getElem?_eq_some_iff.mp hparent).1
  have hj := (List.getElem?_eq_some_iff.mp hchild).1
  simp only [List.map_cons, List.nodup_cons, List.mem_cons, not_or] at hnodup
  obtain ⟨⟨hij, hirest⟩, hjrest, -⟩ := hnodup
  have hadded := h.concat ⟨kind, ⟨child.span.start, child.span.start⟩, some i, [j]⟩
  generalize hnew :
    (⟨kind, ⟨child.span.start, child.span.start⟩, some i, [j]⟩ : Slot) = new at hadded ⊢
  -- the child gets its new parent, and then the parent its new child
  have hjnew : j ∉ ((a.slots.length, new) :: (i, s) :: cells).map (·.1) := by
    simp only [List.map_cons, List.mem_cons, not_or]
    exact ⟨Nat.ne_of_lt hj, Ne.symm hij, hjrest⟩
  have hinew : i ∉ ((j, child.setParent a.slots.length) :: (a.slots.length, new) :: cells).map
      (·.1) := by
    simp only [List.map_cons, List.mem_cons, not_or]
    exact ⟨hij, Nat.ne_of_lt hi, hirest⟩
  have hchildFirst : Stored (a.slots ++ [new])
      ((j, child) :: (a.slots.length, new) :: (i, s) :: cells) := by
    refine hadded.subset fun c => ?_
    simp only [List.mem_cons]
    tauto
  obtain ⟨slots, hfirst, hlength, hstored⟩ :=
    hchildFirst.change hjnew (Slot.setParent a.slots.length)
  have hparentFirst : Stored slots
      ((i, s) :: (j, child.setParent a.slots.length) :: (a.slots.length, new) :: cells) := by
    refine hstored.subset fun c => ?_
    simp only [List.mem_cons]
    tauto
  obtain ⟨slots', hsecond, hlength', hstored'⟩ :=
    hparentFirst.change hinew (Slot.setLastChild a.slots.length)
  refine ⟨slots', ?_, ?_, hstored'⟩
  · simp only [Arena.wrap?, hcurrent, hparent, Option.bind_eq_bind, Option.bind_some, hlast, hchild,
      hnew, hfirst, hsecond]
  · rw [hlength', hlength, List.length_append]
    rfl

/-- The ends of neighbouring trees are looked up in their slots. -/
theorem reach?_eq {ns : List Node} {parent? : Option Nat}
    (h : Stored slots (ns.flatMap (Node.cells parent?))) :
    Arena.reach? slots (ns.map (·.id)) =
      some (ns.foldr (fun n reach => max n.span.stop reach) 0) := by
  induction ns with
  | nil => rfl
  | cons n ns ih =>
      rw [List.flatMap_cons] at h
      have hslot := h (n.id, ⟨n.kind, n.span, parent?, n.children.map (·.id)⟩)
        (List.mem_append_left _ (by rw [Node.cells_eq]; exact List.mem_cons_self))
      have hrest := ih (h.subset (List.subset_append_right _ _))
      rw [List.map_cons, Arena.reach?, hslot, hrest]
      rfl

end Stored

/-! ## One move -/

namespace Builder

/-- The table has the slots of a tree under construction, and knows the open nodes. -/
structure Holds (b : Builder) (a : Arena) : Prop where
  /-- The open nodes are known by their numbers. -/
  opened_eq : a.opened = (b.top :: b.outer).map (·.id)
  /-- The next number is that of the next slot. -/
  length_eq : a.slots.length = b.next
  /-- All slots are there. -/
  stored : Stored a.slots b.cells

namespace Holds

variable {length : Nat} {made : List (Edit × Nat)} {b : Builder} {a : Arena}

/-- Before the first move there is the slot of the root. -/
theorem start (length : Nat) : Holds (Builder.start length) (Arena.start length) := by
  refine ⟨rfl, rfl, ?_⟩
  intro c hc
  obtain rfl := List.mem_singleton.mp hc
  rfl

/-- The number of the open node is known. -/
theorem current_eq (h : Holds b a) : a.current = b.top.id := by
  rw [Arena.current, h.opened_eq]
  rfl

section Push

variable (hgrown : Grown length made b) (h : Holds b a)

include hgrown

/-- The open node is the only one of its number. -/
theorem top_not_mem :
    b.top.id ∉ (b.top.inside ++ Frame.cells b.length (some b.top.id) b.outer).map (·.1) := by
  have hnodup := hgrown.nodup_cells
  rw [cells, Frame.cells, List.map_cons] at hnodup
  exact (List.nodup_cons.mp hnodup).1

include h

/-- A new node in a table is one more slot, and one more child of the open node. -/
theorem push (kind : Node.Kind) (span : Span) :
    ∃ slots, a.push? kind span = some (⟨slots, a.opened⟩, b.next) ∧ slots.length = b.next + 1 ∧
      Stored slots
        ((b.top.id, b.top.slot b.length b.outer (some b.next)) ::
          (b.next, ⟨kind, span, some b.top.id, []⟩) ::
            (b.top.inside ++ Frame.cells b.length (some b.top.id) b.outer)) := by
  have hnew := h.stored.concat ⟨kind, span, some b.top.id, []⟩
  rw [h.length_eq, cells, Frame.cells] at hnew
  have hlt : b.top.id < b.next := hgrown.lt_of_mem_cells (c := (b.top.id, _)) List.mem_cons_self
  obtain ⟨slots, hchange, hlength, hstored⟩ :=
    (hnew.subset (List.Perm.swap _ _ _).subset).change
      (List.not_mem_cons_of_ne_of_not_mem (Nat.ne_of_lt hlt) (top_not_mem hgrown))
      (Slot.addChild b.next)
  refine ⟨slots, ?_, ?_, ?_⟩
  · rw [Arena.push?, h.current_eq, h.length_eq, hchange]
    rfl
  · rw [hlength, List.length_append, h.length_eq]
    rfl
  · rw [Frame.slot_some]
    exact hstored

/-- A leaf. -/
theorem leaf (kind : Node.Kind) (span : Span) :
    ∃ after, a.leaf? kind span = some (after, b.next) ∧ Holds (b.leaf kind span) after := by
  obtain ⟨slots, hpush, hlength, hstored⟩ := h.push hgrown kind span
  refine ⟨_, hpush, h.opened_eq, hlength, hstored.subset ?_⟩
  have hinside : (b.top.push ⟨b.next, kind, span, []⟩).inside =
      b.top.inside ++ [(b.next, ⟨kind, span, some b.top.id, []⟩)] := by
    simp [Frame.inside, Frame.push, Node.cells_eq]
  show Frame.cells b.length none (b.top.push ⟨b.next, kind, span, []⟩ :: b.outer) ⊆ _
  rw [Frame.cells, hinside, Frame.slot_push]
  intro c
  simp only [List.mem_cons, List.mem_append]
  tauto

/-- A node that is opened. -/
theorem enter (kind : Node.Kind) (start : Nat) :
    ∃ after, a.enter? kind start = some (after, b.next) ∧ Holds (b.enter kind start) after := by
  obtain ⟨slots, hpush, hlength, hstored⟩ := h.push hgrown kind ⟨start, start⟩
  refine ⟨⟨slots, b.next :: a.opened⟩, ?_, ?_, hlength, ?_⟩
  · rw [Arena.enter?, hpush]
    rfl
  · rw [h.opened_eq]
    rfl
  · exact hstored.subset (List.Perm.swap _ _ _).subset

/-- A node that is closed. -/
theorem close {g : Frame} {outer : List Frame} (houter : b.outer = g :: outer) (stop : Nat) :
    ∃ slots, Arena.close? a.slots b.top.id stop = some slots ∧
      Holds (b.leave stop) ⟨slots, (g :: outer).map (·.id)⟩ := by
  have hstored := h.stored
  rw [cells, Frame.cells, houter] at hstored
  have hslot := hstored _ List.mem_cons_self
  have hreach : Arena.reach? a.slots (b.top.slot b.length (g :: outer) none).children =
      some b.top.reach := by
    have hreach := (hstored.subset fun c hc =>
      List.mem_cons_of_mem _ (List.mem_append_left _ hc)).reach?_eq
    rw [List.foldr_reverse] at hreach
    rw [Frame.slot, Option.toList_none, List.append_nil, hreach, Frame.reach]
    simp only [Nat.max_comm]
  obtain ⟨slots, hchange, hlength, hchanged⟩ :=
    hstored.change (houter ▸ top_not_mem hgrown) (Slot.setStop stop b.top.reach)
  have hleave : b.leave stop = { b with top := g.push (b.top.close stop), outer } := by
    rw [Builder.leave, houter]
  refine ⟨slots, ?_, ?_, ?_, ?_⟩
  · rw [Arena.close?, hslot, Option.bind_eq_bind, Option.bind_some, hreach, Option.bind_eq_bind,
      Option.bind_some, hchange]
  · rw [hleave]
    rfl
  · rw [hleave, hlength, h.length_eq]
  · have hclosed : (b.top.close stop).cells (some g.id) =
        (b.top.id, (b.top.slot b.length (g :: outer) none).setStop stop b.top.reach) ::
          b.top.inside := by
      rw [Node.cells_eq, Frame.slot, Option.toList_none, List.append_nil]
      rfl
    have hinside : (g.push (b.top.close stop)).inside =
        g.inside ++ (b.top.close stop).cells (some g.id) := by
      simp [Frame.inside, Frame.push]
    rw [hleave, cells, Frame.cells, hinside, hclosed, Frame.slot_push]
    refine hchanged.subset ?_
    rw [Frame.cells]
    intro c
    simp only [List.mem_cons, List.mem_append]
    tauto

/-- A node that is closed, if there is one around it. -/
theorem leave (stop : Nat) :
    ∃ after, a.leave? stop = some after ∧ Holds (b.leave stop) after := by
  cases houter : b.outer with
  | nil =>
      have hopened := h.opened_eq
      rw [houter] at hopened
      refine ⟨a, ?_, ?_⟩
      · rw [Arena.leave?, hopened]
        rfl
      · rwa [Builder.leave, houter]
  | cons g outer =>
      obtain ⟨slots, hclose, hholds⟩ := h.close hgrown houter stop
      have hopened := h.opened_eq
      rw [houter] at hopened
      refine ⟨_, ?_, hholds⟩
      rw [Arena.leave?, hopened]
      show (Arena.close? a.slots b.top.id stop).bind _ = _
      rw [hclose]
      rfl

/-- A node that is opened around the last child of another one. -/
theorem wrap_cons {last : Node} {others : List Node} (hchildren : b.top.children = last :: others)
    (kind : Node.Kind) :
    ∃ after, a.wrap? kind = some (after, some b.next) ∧
      Holds ⟨b.length, b.next + 1, ⟨b.next, kind, last.span.start, [last]⟩,
        { b.top with children := others } :: b.outer⟩ after := by
  generalize hf : ({ b.top with children := others } : Frame) = f
  have hid : f.id = b.top.id := by rw [← hf]
  have hcells := fun parent? => Node.cells_eq parent? last
  generalize last.children.flatMap (Node.cells (some last.id)) = below at hcells
  -- the slots of the two nodes that change, and all others
  have hperm : b.cells.Perm ((b.top.id, b.top.slot b.length b.outer none) ::
      (last.id, ⟨last.kind, last.span, some b.top.id, last.children.map (·.id)⟩) ::
        (f.inside ++ (below ++ Frame.cells b.length (some b.top.id) b.outer))) := by
    have hinside : b.top.inside = f.inside ++ last.cells (some b.top.id) := by
      simp [Frame.inside, hchildren, ← hf]
    rw [cells, Frame.cells, hinside, hcells, List.append_assoc, List.cons_append]
    exact List.perm_middle.cons _
  have hlast : (b.top.slot b.length b.outer none).children.getLast? = some last.id := by
    simp [Frame.slot, hchildren]
  have hset : (b.top.slot b.length b.outer none).setLastChild b.next =
      f.slot b.length b.outer (some b.next) := by
    rw [← hf]
    simp [Frame.slot, Slot.setLastChild, hchildren, Slot.replaceLast_concat]
  obtain ⟨slots, hwrap, hlength, hstored⟩ :=
    (h.stored.subset hperm.symm.subset).wrap h.current_eq hlast
      ((hperm.map (·.1)).nodup_iff.mp hgrown.nodup_cells) kind
  rw [h.length_eq] at hwrap hlength hstored
  refine ⟨_, hwrap, ?_, hlength, hstored.subset ?_⟩
  · rw [h.opened_eq, List.map_cons, List.map_cons, List.map_cons, hid]
  · have hinside : (⟨b.next, kind, last.span.start, [last]⟩ : Frame).inside =
        last.cells (some b.next) := List.flatMap_singleton _ _
    have hslot : Frame.slot b.length ⟨b.next, kind, last.span.start, [last]⟩ (f :: b.outer) none =
        ⟨kind, ⟨last.span.start, last.span.start⟩, some b.top.id, [last.id]⟩ := by
      rw [← hid]
      rfl
    rw [cells, Frame.cells, Frame.cells, hinside, hcells, hslot, hid, ← hset]
    intro c
    simp only [List.mem_cons, List.mem_append, Slot.setParent]
    tauto

/-- A node that is opened around another one, if there is one. -/
theorem wrap (kind : Node.Kind) :
    ∃ after, a.wrap? kind = some (after, (b.apply (.wrap kind)).2) ∧
      Holds (b.apply (.wrap kind)).1 after := by
  rw [Builder.apply, wrap?]
  cases hchildren : b.top.children with
  | nil =>
      have hparent := h.stored (b.top.id, b.top.slot b.length b.outer none) List.mem_cons_self
      refine ⟨a, ?_, h⟩
      rw [Arena.wrap?, h.current_eq, hparent]
      simp [Frame.slot, hchildren]
  | cons last others => exact h.wrap_cons hgrown hchildren kind

/-- **One move.** -/
theorem apply (e : Edit) :
    ∃ after, a.move? e = some (after, (b.apply e).2) ∧ Holds (b.apply e).1 after := by
  cases e with
  | leaf kind span =>
      obtain ⟨after, hleaf, hholds⟩ := h.leaf hgrown kind span
      exact ⟨after, by rw [Arena.move?, hleaf]; rfl, hholds⟩
  | enter kind start =>
      obtain ⟨after, henter, hholds⟩ := h.enter hgrown kind start
      exact ⟨after, by rw [Arena.move?, henter]; rfl, hholds⟩
  | leave stop =>
      obtain ⟨after, hleave, hholds⟩ := h.leave hgrown stop
      exact ⟨after, by rw [Arena.move?, hleave]; rfl, hholds⟩
  | wrap kind => exact h.wrap hgrown kind

/-- **Any number of moves.** The nodes they make have the same numbers in both. -/
theorem run (edits : List Edit) :
    ∃ last, a.run? edits = some (last, (b.trace edits).map (·.1)) ∧ Holds (b.run edits) last := by
  induction edits generalizing b a made with
  | nil => exact ⟨a, rfl, h⟩
  | cons e edits ih =>
      obtain ⟨after, hafter, hholds⟩ := h.apply hgrown e
      obtain ⟨last, hlast, hlastHolds⟩ := ih (hgrown.apply e) hholds
      refine ⟨last, ?_, hlastHolds⟩
      rw [Arena.run?, hafter, Option.bind_eq_bind, Option.bind_some]
      dsimp only
      rw [hlast]
      rfl

end Push

/-! ## All open nodes -/

/-- Among the open nodes is the root, which ends where the source does. -/
theorem exists_root_cell (length : Nat) {f : Frame} {outer : List Frame}
    (h : Frame.EndInRoot (f :: outer)) (inner? : Option Nat) :
    ∃ s, (0, s) ∈ Frame.cells length inner? (f :: outer) ∧ s.span.stop = length := by
  induction outer generalizing f inner? with
  | nil =>
      refine ⟨f.slot length [] inner?, ?_, rfl⟩
      rw [Frame.cells, h.1]
      exact List.mem_cons_self
  | cons g outer ih =>
      obtain ⟨s, hs, hstop⟩ := ih h (some f.id)
      exact ⟨s, List.mem_cons_of_mem _ (List.mem_append_right _ hs), hstop⟩

/-- Closing what is open. -/
theorem finish {length : Nat} {made : List (Edit × Nat)} {b : Builder} {a : Arena}
    (hgrown : Grown length made b) (h : Holds b a) :
    ∃ slots, a.finish? = some slots ∧ slots.length = b.next ∧
      Stored slots (b.finish.cells none) := by
  rw [Arena.finish?, h.opened_eq]
  induction houter : b.outer generalizing b a with
  | nil =>
      refine ⟨a.slots, rfl, h.length_eq, ?_⟩
      have hstored := h.stored
      rw [cells, houter, Frame.cells, Frame.cells, List.append_nil, Frame.slot, Option.toList_none,
        List.append_nil] at hstored
      rw [Builder.finish, houter, closeAll, Node.cells_eq]
      exact hstored
  | cons g outer ih =>
      obtain ⟨root, hroot, hstop⟩ := exists_root_cell b.length hgrown.root none
      have hslot := h.stored _ hroot
      obtain ⟨slots, hclose, hholds⟩ := h.close hgrown houter b.length
      have hleave : (b.leave b.length).outer = outer ∧ (b.leave b.length).top.id = g.id ∧
          (b.leave b.length).next = b.next := by
        rw [Builder.leave, houter]
        exact ⟨rfl, rfl, rfl⟩
      obtain ⟨last, hlast, hlength, hstored⟩ := ih (hgrown.leave b.length) hholds hleave.1
      rw [finish_leave] at hstored
      refine ⟨last, ?_, hlength.trans hleave.2.2, hstored⟩
      rw [List.map_cons, List.map_cons, Arena.closeAll?, hslot, Option.bind_eq_bind,
        Option.bind_some, hstop, hclose]
      have hids : ((b.leave b.length).top :: outer).map (·.id) = (g :: outer).map (·.id) := by
        rw [List.map_cons, hleave.2.1, List.map_cons]
      rwa [hids] at hlast
end Holds

end Builder

/-- **The table holds the tree.** Whatever the moves, no number is looked up that is not in the
table, and the moves make nodes of the same numbers as they do without it. At the end the table has
one slot for each node of the tree: its kind, its span, and the numbers of its parent and of its
children. -/
theorem Arena.build?_eq (length : Nat) (edits : List Edit) :
    let root := ((Builder.start length).run edits).finish
    ∃ slots, build? length edits = some (slots, ((Builder.start length).trace edits).map (·.1)) ∧
      slots.length = root.size ∧ ∀ p ∈ root.paths, slots[p.node.id]? = some p.slot := by
  intro root
  have hgrown := (Builder.Grown.start length).run edits
  obtain ⟨a, hrun, hholds⟩ := (Builder.Holds.start length).run (Builder.Grown.start length) edits
  obtain ⟨slots, hfinish, hlength, hstored⟩ := hholds.finish hgrown
  refine ⟨slots, ?_, hlength.trans hgrown.finish.1.symm, ?_⟩
  · rw [build?, hrun, Option.bind_eq_bind, Option.bind_some]
    dsimp only
    rw [hfinish]
    rfl
  · intro p hp
    have hcells := Node.map_slot_pathsBelow [] root
    exact hstored (p.node.id, p.slot) (hcells ▸ List.mem_map_of_mem hp)

end GolfAssist
