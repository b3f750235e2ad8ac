import GolfAssist.Proofs.Tree.Arena

/-!
# Walks over a table

* `Arena.ancestors?`, `Arena.within?` — from a node to its parent, the parent of that, and so on.
* `Arena.preorder?` — through all nodes, with a stack of those still to be visited.
* `Arena.resolve?` — down into the first child that has an offset in it, and so on.
* `Arena.walks_of_slots` — in a table that has the slots of a tree, each walk comes to its end and
  gives what the tree says.
* `Document.exists_table` — the tree of every document is in such a table.

Each walk is a loop that only knows a number, or some numbers, and looks up the next one. That it
ends is not seen from the table, where slots could refer to each other in a circle: the number of
turns is bounded by the tree that the table holds.
-/

namespace GolfAssist

namespace Arena

variable (slots : List Slot)

/-! ## Loops -/

/-- A node, its parent, and so on up to the root. -/
def ancestors? : (turns id : Nat) → Option (List Nat)
  | 0, _ => none
  | turns + 1, id => do
    let s ← slots[id]?
    match s.parent? with
    | none => some [id]
    | some parent => (ancestors? turns parent).map (id :: ·)

/-- The node or one above it has the kind. -/
def within? (kind : Node.Kind) : (turns id : Nat) → Option Bool
  | 0, _ => none
  | turns + 1, id => do
    let s ← slots[id]?
    if s.kind = kind then some true
    else
      match s.parent? with
      | none => some false
      | some parent => within? kind turns parent

/-- The nodes on a stack and all that are below them. A node is replaced by its children when it is
visited. -/
def preorder? : (turns : Nat) → (stack : List Nat) → Option (List Nat)
  | _, [] => some []
  | 0, _ :: _ => none
  | turns + 1, id :: stack => do
    let s ← slots[id]?
    (preorder? turns (s.children ++ stack)).map (id :: ·)

/-- The first of some siblings that the offset lies in. One that starts after the offset ends the
search. -/
def entered? (offset : Nat) (bias : Bias) : List Nat → Option (Option Nat)
  | [] => some none
  | id :: ids => do
    let s ← slots[id]?
    if offset < s.span.start then some none
    else if bias.enters s.span offset then some (some id)
    else entered? offset bias ids

/-- The innermost node at the offset, from a node on. -/
def resolve? (offset : Nat) (bias : Bias) : (turns id : Nat) → Option Nat
  | 0, _ => none
  | turns + 1, id => do
    let s ← slots[id]?
    match ← entered? slots offset bias s.children with
    | none => some id
    | some child => resolve? offset bias turns child

variable {slots}

/-! ## Upwards -/

section Up

variable {root : Node} (h : ∀ p ∈ root.paths, slots[p.node.id]? = some p.slot)

/-- A place without a parent is the root, and any other one hangs below a place. -/
theorem place_cases {p : Node.Path} (hp : p ∈ root.paths) :
    (p.slot.parent? = none ∧ p.ancestors = [p.node]) ∨
      ∃ q ∈ root.paths, p.slot.parent? = some q.node.id ∧ p.ancestors = p.node :: q.ancestors := by
  rcases Node.mem_paths_iff.mp hp with rfl | htail
  · exact .inl ⟨rfl, rfl⟩
  · obtain ⟨q, hq, habove, -⟩ := Node.exists_place_of_mem_tail_paths htail
    refine .inr ⟨q, hq, ?_, ?_⟩
    · rw [Node.Path.slot, Node.parent?_of_above habove]
      rfl
    · rw [Node.Path.ancestors, habove]

include h

/-- **From parent to parent, the nodes above are found.** -/
theorem ancestors?_eq {turns : Nat} {p : Node.Path} (hp : p ∈ root.paths)
    (hturns : p.ancestors.length ≤ turns) :
    ancestors? slots turns p.node.id = some (p.ancestors.map (·.id)) := by
  induction turns generalizing p with
  | zero => exact absurd hturns (Nat.not_succ_le_zero _)
  | succ turns ih =>
      rw [ancestors?, h p hp, Option.bind_eq_bind, Option.bind_some]
      rcases place_cases hp with ⟨hparent, hroot⟩ | ⟨q, hq, hparent, habove⟩
      · rw [hparent, hroot]
        rfl
      · rw [habove, List.length_cons] at hturns
        rw [hparent, habove]
        dsimp only
        rw [ih hq (Nat.le_of_succ_le_succ hturns)]
        rfl

/-- **From parent to parent, a node of a kind is found.** -/
theorem within?_eq {kind : Node.Kind} {turns : Nat} {p : Node.Path} (hp : p ∈ root.paths)
    (hturns : p.ancestors.length ≤ turns) :
    within? slots kind turns p.node.id = some (p.within kind) := by
  induction turns generalizing p with
  | zero => exact absurd hturns (Nat.not_succ_le_zero _)
  | succ turns ih =>
      have hkind : p.slot.kind = p.node.kind := rfl
      rw [within?, h p hp, Option.bind_eq_bind, Option.bind_some, hkind, Node.Path.within]
      rcases place_cases hp with ⟨hparent, hroot⟩ | ⟨q, hq, hparent, habove⟩
      · rw [hparent, hroot]
        split <;> simp_all
      · rw [habove, List.length_cons] at hturns
        rw [hparent, habove, List.any_cons]
        split
        · simp_all
        · rename_i hne
          rw [decide_eq_false hne, Bool.false_or]
          exact ih hq (Nat.le_of_succ_le_succ hturns)

end Up

/-! ## Downwards -/

/-- In a table that holds a tree, a node is looked up with its children. -/
theorem lookup {parent? : Option Nat} {n : Node} (h : Stored slots (n.cells parent?)) :
    slots[n.id]? = some ⟨n.kind, n.span, parent?, n.children.map (·.id)⟩ ∧
      ∀ c ∈ n.children, Stored slots (c.cells (some n.id)) := by
  rw [Node.cells_eq] at h
  refine ⟨h _ List.mem_cons_self, fun c hc => h.subset fun cell hcell => ?_⟩
  exact List.mem_cons_of_mem _ (List.mem_flatMap.mpr ⟨c, hc, hcell⟩)

/-- **The stack visits all nodes in document order.** -/
theorem preorder?_eq {turns : Nat} {ns : List Node}
    (h : ∀ n ∈ ns, ∃ parent?, Stored slots (n.cells parent?))
    (hturns : (ns.flatMap Node.preorder).length ≤ turns) :
    preorder? slots turns (ns.map (·.id)) = some ((ns.flatMap Node.preorder).map (·.id)) := by
  induction turns generalizing ns with
  | zero =>
      cases ns with
      | nil => rfl
      | cons n ns =>
          rw [List.flatMap_cons, Node.preorder_eq] at hturns
          exact absurd hturns (Nat.not_succ_le_zero _)
  | succ turns ih =>
      cases ns with
      | nil => rfl
      | cons n ns =>
          obtain ⟨parent?, hn⟩ := h n List.mem_cons_self
          obtain ⟨hslot, hchildren⟩ := lookup hn
          have hstack : ∀ m ∈ n.children ++ ns, ∃ parent?, Stored slots (m.cells parent?) := by
            intro m hm
            rcases List.mem_append.mp hm with hm | hm
            · exact ⟨some n.id, hchildren m hm⟩
            · exact h m (List.mem_cons_of_mem _ hm)
          have hnodes : (n :: ns).flatMap Node.preorder =
              n :: (n.children ++ ns).flatMap Node.preorder := by
            rw [List.flatMap_cons, Node.preorder_eq, List.cons_append, List.flatMap_append]
          rw [hnodes, List.length_cons] at hturns
          have hrest := ih hstack (Nat.le_of_succ_le_succ hturns)
          rw [List.map_append] at hrest
          rw [hnodes, List.map_cons, preorder?, hslot, Option.bind_eq_bind, Option.bind_some, hrest]
          rfl

/-- Among children, the search enters the one that is found in the table, or stays. -/
theorem entered?_eq {offset : Nat} {bias : Bias} (here : Node.Path) {ns : List Node}
    {parent? : Option Nat} (h : ∀ n ∈ ns, Stored slots (n.cells parent?)) :
    (entered? slots offset bias (ns.map (·.id)) = some none ∧
        Node.resolveAmong offset bias here ns = here) ∨
      ∃ c ∈ ns, entered? slots offset bias (ns.map (·.id)) = some (some c.id) ∧
        Node.resolveAmong offset bias here ns = Node.resolveBelow offset bias here.ancestors c := by
  induction ns with
  | nil => exact .inl ⟨rfl, by rw [Node.resolveAmong]⟩
  | cons n ns ih =>
      obtain ⟨hslot, -⟩ := lookup (h n List.mem_cons_self)
      rw [List.map_cons, entered?, hslot, Option.bind_eq_bind, Option.bind_some, Node.resolveAmong]
      dsimp only
      split
      · exact .inl ⟨rfl, rfl⟩
      · split
        · exact .inr ⟨n, List.mem_cons_self, rfl, rfl⟩
        · rcases ih fun m hm => h m (List.mem_cons_of_mem _ hm) with hstay | ⟨c, hc, henter⟩
          · exact .inl hstay
          · exact .inr ⟨c, List.mem_cons_of_mem _ hc, henter⟩

/-- **From child to child, the innermost node at an offset is found.** -/
theorem resolve?_eq {offset : Nat} {bias : Bias} (above : List Node) {turns : Nat}
    {parent? : Option Nat} {n : Node} (h : Stored slots (n.cells parent?))
    (hturns : n.preorder.length ≤ turns) :
    resolve? slots offset bias turns n.id =
      some (Node.resolveBelow offset bias above n).node.id := by
  induction turns generalizing n parent? above with
  | zero =>
      rw [Node.preorder_eq] at hturns
      exact absurd hturns (Nat.not_succ_le_zero _)
  | succ turns ih =>
      obtain ⟨hslot, hchildren⟩ := lookup h
      have hbelow : Node.resolveBelow offset bias above n =
          Node.resolveAmong offset bias ⟨n, above⟩ n.children := by
        obtain ⟨id, kind, span, children⟩ := n
        rw [Node.resolveBelow]
      rw [resolve?, hslot, Option.bind_eq_bind, Option.bind_some, hbelow]
      dsimp only
      rcases entered?_eq ⟨n, above⟩ hchildren with ⟨hfound, hstay⟩ | ⟨c, hc, hfound, henter⟩
      · rw [hfound, hstay]
        rfl
      · have hlength : c.preorder.length ≤ turns := by
          obtain ⟨a, b, hab⟩ := List.append_of_mem hc
          rw [Node.preorder_eq, hab, List.flatMap_append, List.flatMap_cons, List.length_cons,
            List.length_append, List.length_append] at hturns
          omega
        rw [hfound, henter, Option.bind_eq_bind, Option.bind_some]
        exact ih _ (hchildren c hc) hlength

/-! ## All walks -/

/-- The walks over a table come to their ends, and give what a tree says. -/
structure Walks (slots : List Slot) (root : Node) : Prop where
  /-- From a node up to the root. -/
  ancestors_eq : ∀ p ∈ root.paths, ∀ turns, p.ancestors.length ≤ turns →
    ancestors? slots turns p.node.id = some (p.ancestors.map (·.id))
  /-- From a node up to one of a kind. -/
  within_eq : ∀ p ∈ root.paths, ∀ turns, p.ancestors.length ≤ turns → ∀ kind,
    within? slots kind turns p.node.id = some (p.within kind)
  /-- Through all nodes. -/
  preorder_eq : ∀ turns, root.size ≤ turns →
    preorder? slots turns [root.id] = some (root.preorder.map (·.id))
  /-- From the root down to an offset. -/
  resolve_eq : ∀ turns, root.size ≤ turns → ∀ offset bias,
    resolve? slots offset bias turns root.id = some (root.resolve offset bias).node.id

/-- **A table that has the slots of a tree can be walked.** -/
theorem walks_of_slots {slots : List Slot} {root : Node}
    (h : ∀ p ∈ root.paths, slots[p.node.id]? = some p.slot) : Walks slots root := by
  have hstored : Stored slots (root.cells none) := by
    intro cell hcell
    obtain ⟨p, hp, rfl⟩ := List.mem_map.mp (Node.map_slot_pathsBelow [] root ▸ hcell)
    exact h p hp
  have hsize : root.preorder.length = root.size := List.length_map _
  refine ⟨fun p hp turns hturns => ancestors?_eq h hp hturns,
    fun p hp turns hturns kind => within?_eq h hp hturns, fun turns hturns => ?_,
    fun turns hturns offset bias => ?_⟩
  · have hroot : [root].flatMap Node.preorder = root.preorder := List.flatMap_singleton _ _
    have hpreorder := @preorder?_eq slots turns [root]
      (fun n hn => ⟨none, List.mem_singleton.mp hn ▸ hstored⟩) (by rwa [hroot, hsize])
    rwa [hroot] at hpreorder
  · exact resolve?_eq [] hstored (Nat.le_trans (Nat.le_of_eq hsize) hturns)

end Arena

/-- **The tree of every document is in a table.** Some moves build a table with one slot for each
node of the tree, and all walks over it give what the tree says. -/
theorem Document.exists_table (source : String) :
    ∃ edits slots made,
      Arena.build? (Text.byteLength source.toList) edits = some (slots, made) ∧
      slots.length = (read source).tree.size ∧
      (∀ p ∈ (read source).tree.paths, slots[p.node.id]? = some p.slot) ∧
      Arena.Walks slots (read source).tree := by
  obtain ⟨edits, hedits⟩ := exists_edits source
  obtain ⟨slots, hbuild, hlength, hslots⟩ :=
    Arena.build?_eq (Text.byteLength source.toList) edits
  rw [← hedits] at hlength hslots
  exact ⟨edits, slots, _, hbuild, hlength, hslots, Arena.walks_of_slots hslots⟩

end GolfAssist
