import GolfAssist.Proofs.Reader.Draft
import GolfAssist.Proofs.Tree.Preorder

/-!
# How the nodes of a document lie in its source

* `Node.LaidOut` — a node covers a part of the source that is not empty and begins where its first
  child begins; its children lie inside, in order and without overlap.
* `Builder.Laid` — the same for a tree under construction, together with what is still to come: the
  nodes of the row of children that are not closed in yet (`Builder.row`) lie in order, and all of
  them end before the tokens that are left.
* `Document.tree_laid_out` — every node of a document is laid out, inside its parent, and its ends
  fall between characters.

Closing a node is the act that needs the whole invariant. Its end is the furthest of three offsets,
and none of them reaches into a token that is left; its start was set when it was opened, and is
the start of its first child because an open node never loses that child.
-/

namespace GolfAssist

open Text

/-! ## Finished nodes -/

/-- The node lies as it should, and its ends are offsets of the given sort. -/
structure Node.LaidOut (At : Nat → Prop) (n : Node) : Prop where
  /-- The node is not empty. -/
  start_lt_stop : n.span.start < n.span.stop
  /-- It begins where its first child begins. -/
  head_start : ∀ c, n.children.head? = some c → n.span.start = c.span.start
  /-- Its children lie inside. -/
  inside : ∀ c ∈ n.children, n.span.start ≤ c.span.start ∧ c.span.stop ≤ n.span.stop
  /-- Its children come in order and do not overlap. -/
  ordered : n.children.Pairwise fun a b => a.span.stop ≤ b.span.start
  /-- Its start is an offset of the given sort. -/
  start_at : At n.span.start
  /-- Its end is an offset of the given sort. -/
  stop_at : At n.span.stop

/-- A leaf lies as it should if it is not empty. -/
theorem Node.LaidOut.leaf {At : Nat → Prop} {id : Nat} {kind : Node.Kind} {span : Span}
    (h : span.start < span.stop) (hstart : At span.start) (hstop : At span.stop) :
    Node.LaidOut At ⟨id, kind, span, []⟩ :=
  ⟨h, by simp, by simp, .nil, hstart, hstop⟩

/-! ## Open nodes -/

namespace Frame

/-- The open node starts where its first child starts. -/
def Anchored (f : Frame) : Prop := ∃ c, f.children.getLast? = some c ∧ c.span.start = f.start

/-- One more child does not change the first one. -/
theorem Anchored.push {f : Frame} (h : f.Anchored) (n : Node) : (f.push n).Anchored := by
  obtain ⟨c, hc, hs⟩ := h
  refine ⟨c, ?_, hs⟩
  unfold Frame.push
  rw [List.getLast?_cons, hc]
  rfl

/-- The running maximum of the ends is one of them, or where it began. -/
theorem foldl_max_stop (ns : List Node) (a : Nat) :
    a ≤ ns.foldl (fun stop n => max stop n.span.stop) a ∧
      (∀ n ∈ ns, n.span.stop ≤ ns.foldl (fun stop n => max stop n.span.stop) a) ∧
      (ns.foldl (fun stop n => max stop n.span.stop) a = a ∨
        ∃ n ∈ ns, ns.foldl (fun stop n => max stop n.span.stop) a = n.span.stop) := by
  induction ns generalizing a with
  | nil => simp
  | cons n ns ih =>
      obtain ⟨hle, hall, heq⟩ := ih (max a n.span.stop)
      rw [List.foldl_cons]
      refine ⟨by omega, ?_, ?_⟩
      · intro m hm
        rcases List.mem_cons.mp hm with rfl | hm
        · omega
        · exact hall m hm
      · rcases heq with heq | ⟨m, hm, heq⟩
        · rw [heq]
          rcases Nat.le_total a n.span.stop with h | h
          · exact .inr ⟨n, List.mem_cons_self, by omega⟩
          · exact .inl (by omega)
        · exact .inr ⟨m, List.mem_cons_of_mem _ hm, heq⟩

/-- No child ends behind the reach. -/
theorem stop_le_reach {f : Frame} {n : Node} (h : n ∈ f.children) : n.span.stop ≤ f.reach :=
  (foldl_max_stop f.children 0).2.1 n h

/-- The reach is the end of a child, or 0. -/
theorem reach_eq (f : Frame) : f.reach = 0 ∨ ∃ n ∈ f.children, f.reach = n.span.stop :=
  (foldl_max_stop f.children 0).2.2

/-- An open node whose children are laid out one after the other is laid out when it is closed. -/
theorem Anchored.laidOut_close {At : Nat → Prop} {f : Frame} {stop : Nat} (h : f.Anchored)
    (hpos : ∀ n ∈ f.children, n.span.start < n.span.stop)
    (hord : f.children.reverse.Pairwise fun a b => a.span.stop ≤ b.span.start)
    (hat : ∀ n ∈ f.children, At n.span.start ∧ At n.span.stop) (hstop : At stop) :
    (f.close stop).LaidOut At := by
  obtain ⟨c, hc, hs⟩ := h
  have hmem : c ∈ f.children := List.mem_of_getLast? hc
  have hcpos := hpos c hmem
  have hreach := stop_le_reach hmem
  have hhead : f.children.reverse.head? = some c := by rw [List.head?_reverse, hc]
  refine ⟨?_, ?_, ?_, hord, ?_, ?_⟩
  · show f.start < max (max stop f.reach) f.start
    omega
  · intro d hd
    obtain rfl : c = d := Option.some.inj (hhead.symm.trans hd)
    exact hs.symm
  · intro d hd
    have hd : d ∈ f.children := List.mem_reverse.mp hd
    have hdreach := stop_le_reach hd
    show f.start ≤ d.span.start ∧ d.span.stop ≤ max (max stop f.reach) f.start
    refine ⟨?_, by omega⟩
    obtain ⟨rest, hrest⟩ := List.head?_eq_some_iff.mp hhead
    rw [hrest] at hord
    rcases List.mem_cons.mp (hrest ▸ List.mem_reverse.mpr hd) with rfl | hd'
    · omega
    · have := List.rel_of_pairwise_cons hord hd'
      omega
  · show At f.start
    exact hs ▸ (hat c hmem).1
  · show At (max (max stop f.reach) f.start)
    have hreach_at : f.reach = 0 ∨ At f.reach := by
      rcases f.reach_eq with h | ⟨n, hn, h⟩
      · exact .inl h
      · exact .inr (h ▸ (hat n hn).2)
    -- the start is never the largest, since the first child ends behind it
    rcases Nat.le_total f.reach stop with hle | hle
    · rwa [show max (max stop f.reach) f.start = stop by omega]
    · rcases hreach_at with h | h
      · omega
      · rwa [show max (max stop f.reach) f.start = f.reach by omega]

end Frame

/-! ## Trees under construction -/

namespace Builder

/-- Every open node but the root starts where its first child starts. -/
def Anchors : Frame → List Frame → Prop
  | _, [] => True
  | f, g :: frames => f.Anchored ∧ Anchors g frames

/-- One more child in the innermost node does not change where it starts. -/
theorem Anchors.push {f : Frame} {frames : List Frame} (h : Anchors f frames) (n : Node) :
    Anchors (f.push n) frames := by
  cases frames with
  | nil => trivial
  | cons g frames => exact ⟨h.1.push n, h.2⟩

/-- What is finished of the tree under construction is laid out, in front of the tokens that are
left. -/
structure InOrder (At : Nat → Prop) (rest : List Token) (b : Builder) : Prop where
  /-- The row comes in order and without overlap. -/
  ordered : b.row.Pairwise fun a b => a.span.stop ≤ b.span.start
  /-- The row ends in front of the tokens that are left. -/
  ahead : ∀ n ∈ b.row, ∀ t ∈ rest, n.span.stop ≤ t.start
  /-- Everything that is finished is laid out. -/
  settled : ∀ n ∈ b.finished, n.LaidOut At

/-- The tree under construction is laid out, in front of the tokens that are left. -/
structure Laid (At : Nat → Prop) (rest : List Token) (b : Builder) : Prop
    extends InOrder At rest b where
  /-- Open nodes start where their first children start. -/
  anchors : Anchors b.top b.outer

variable {At : Nat → Prop} {rest : List Token} {b : Builder}

/-- Only the row counts for what is finished. -/
theorem InOrder.congr {b' : Builder} (h : b.InOrder At rest) (hrow : b'.row = b.row) :
    b'.InOrder At rest := by
  refine ⟨hrow ▸ h.ordered, hrow ▸ h.ahead, ?_⟩
  unfold finished
  rw [hrow]
  exact h.settled

/-- What is in the row is laid out. -/
theorem InOrder.laidOut {n : Node} (h : b.InOrder At rest) (hn : n ∈ b.row) : n.LaidOut At :=
  h.settled n (mem_finished_of_mem_row hn)

/-- A leaf for the next token comes behind the row. -/
theorem InOrder.leaf {t : Token} (h : b.InOrder At (t :: rest))
    (ht : (t :: rest).Pairwise fun a b => a.stop ≤ b.start) (hpos : t.start < t.stop)
    (hat : At t.start ∧ At t.stop) (kind : Node.Kind) :
    (b.leaf kind t.span).InOrder At rest := by
  refine ⟨?_, ?_, ?_⟩
  · rw [row_leaf]
    refine List.pairwise_append.mpr ⟨h.ordered, List.pairwise_singleton _ _, ?_⟩
    intro m hm n hn
    obtain rfl := List.mem_singleton.mp hn
    exact h.ahead m hm t List.mem_cons_self
  · rw [row_leaf]
    intro n hn u hu
    rcases List.mem_append.mp hn with hn | hn
    · exact h.ahead n hn u (List.mem_cons_of_mem _ hu)
    · obtain rfl := List.mem_singleton.mp hn
      exact List.rel_of_pairwise_cons ht hu
  · intro n hn
    rcases mem_finished_leaf.mp hn with rfl | hn
    · exact .leaf hpos hat.1 hat.2
    · exact h.settled n hn

/-- Placing a token keeps the layout. -/
theorem Laid.leaf {t : Token} (h : b.Laid At (t :: rest))
    (ht : (t :: rest).Pairwise fun a b => a.stop ≤ b.start) (hpos : t.start < t.stop)
    (hat : At t.start ∧ At t.stop) (kind : Node.Kind) : (b.leaf kind t.span).Laid At rest :=
  ⟨h.toInOrder.leaf ht hpos hat kind, h.anchors.push _⟩

/-- Opening a node with its first token keeps the layout. -/
theorem Laid.enter_leaf {t : Token} (h : b.Laid At (t :: rest))
    (ht : (t :: rest).Pairwise fun a b => a.stop ≤ b.start) (hpos : t.start < t.stop)
    (hat : At t.start ∧ At t.stop) (kind leaf : Node.Kind) :
    ((b.enter kind t.start).leaf leaf t.span).Laid At rest :=
  ⟨(h.toInOrder.congr (row_enter b kind t.start)).leaf ht hpos hat leaf, ⟨_, rfl, rfl⟩, h.anchors⟩

/-- Closing a node in front of the tokens that are left keeps the layout. -/
theorem Laid.leave {stop : Nat} (h : b.Laid At rest) (ho : b.outer ≠ []) (hat : At stop)
    (hstop : ∀ t ∈ rest, stop ≤ t.start) : (b.leave stop).Laid At rest := by
  obtain ⟨f, outer, houter⟩ := List.exists_cons_of_ne_nil ho
  have hanchors := h.anchors
  rw [houter] at hanchors
  obtain ⟨hanchored, hanchors⟩ := hanchors
  have hmem : ∀ n ∈ b.top.children, n ∈ b.row :=
    fun n hn => List.mem_append_right _ (List.mem_reverse.mpr hn)
  have hbefore : ∀ n ∈ b.before, n ∈ b.row := fun n hn => List.mem_append_left _ hn
  obtain ⟨hord₁, hord₂, hacross⟩ := List.pairwise_append.mp h.ordered
  have hclose : (b.top.close stop).LaidOut At :=
    hanchored.laidOut_close (fun n hn => (h.laidOut (hmem n hn)).start_lt_stop) hord₂
      (fun n hn => ⟨(h.laidOut (hmem n hn)).start_at, (h.laidOut (hmem n hn)).stop_at⟩) hat
  obtain ⟨c, hc, hcs⟩ := hanchored
  have hcmem : c ∈ b.top.children := List.mem_of_getLast? hc
  refine ⟨⟨?_, ?_, ?_⟩, ?_⟩
  · rw [row_leave ho]
    refine List.pairwise_append.mpr ⟨hord₁, List.pairwise_singleton _ _, ?_⟩
    intro m hm k hk
    obtain rfl := List.mem_singleton.mp hk
    show m.span.stop ≤ b.top.start
    rw [← hcs]
    exact hacross m hm c (List.mem_reverse.mpr hcmem)
  · rw [row_leave ho]
    intro m hm t ht
    rcases List.mem_append.mp hm with hm | hm
    · exact h.ahead m (hbefore m hm) t ht
    · obtain rfl := List.mem_singleton.mp hm
      have hreach : b.top.reach ≤ t.start := by
        rcases b.top.reach_eq with h0 | ⟨n, hn, heq⟩
        · omega
        · rw [heq]
          exact h.ahead n (hmem n hn) t ht
      have hc₁ := h.ahead c (hmem c hcmem) t ht
      have hc₂ := (h.laidOut (hmem c hcmem)).start_lt_stop
      have hst := hstop t ht
      show max (max stop b.top.reach) b.top.start ≤ t.start
      omega
  · intro m hm
    rcases (mem_finished_leave ho stop).mp hm with rfl | hm
    · exact hclose
    · exact h.settled m hm
  · unfold Builder.leave
    rw [houter]
    exact hanchors.push _

/-- Wrapping a node keeps the layout, if the node around it keeps a child or is the root. -/
theorem Laid.wrap {b' : Builder} {kind : Node.Kind} {n : Node} {others : List Node}
    (h : b.Laid At rest) (hb : b.wrap? kind = some b') (hn : b.top.children = n :: others)
    (ho : others ≠ [] ∨ b.outer = []) : b'.Laid At rest := by
  refine ⟨h.toInOrder.congr (row_wrap hb), ?_⟩
  unfold wrap? at hb
  rw [hn] at hb
  cases hb
  refine ⟨⟨n, rfl, rfl⟩, ?_⟩
  have hanchors := h.anchors
  cases houter : b.outer with
  | nil => trivial
  | cons g frames =>
      rw [houter] at hanchors ho
      obtain ⟨⟨c, hc, hs⟩, hrest⟩ := hanchors
      refine ⟨⟨c, ?_, hs⟩, hrest⟩
      have hne : others ≠ [] := by simpa using ho
      rwa [hn, List.getLast?_cons_of_ne_nil hne] at hc

end Builder

/-! ## Drafts and documents -/

namespace Draft

variable {source : String} {t : Token} {rest : List Token}

/-- The tokens that are left come in order. -/
theorem pairwise_of_suffix (h : rest <:+ Token.lex source) :
    rest.Pairwise fun a b => a.stop ≤ b.start :=
  (Token.lex_pairwise source).sublist h.sublist

/-- A token that becomes a leaf is not empty. -/
theorem start_lt_stop_of_suffix {kind : Node.Kind} (h : t :: rest <:+ Token.lex source)
    (hk : kind ∈ t.leafKinds) : t.start < t.stop := by
  have hmem : t ∈ Token.lex source := h.subset List.mem_cons_self
  rcases List.mem_append.mp hmem with hmem | hmem
  · exact Token.start_lt_stop_of_mem_scan hmem
  · obtain rfl := List.mem_singleton.mp hmem
    cases hk

/-- Both ends of the next token fall between characters. -/
theorem isBoundary_of_suffix (h : t :: rest <:+ Token.lex source) :
    isBoundary t.start source.toList ∧ isBoundary t.stop source.toList :=
  Token.isBoundary_of_mem_lex (h.subset List.mem_cons_self)

/-- The start of a text falls between characters. -/
theorem isBoundary_zero (cs : List Char) : Text.isBoundary 0 cs :=
  isBoundary_iff.mpr ⟨[], cs, rfl, rfl⟩

/-- The tree of the draft is laid out in front of the tokens that are left, and the ends of its
nodes fall between characters. -/
def LaidOut (source : String) (d : Draft) : Prop :=
  d.builder.Laid (fun offset => isBoundary offset source.toList) d.rest

/-- Every act keeps the layout. -/
theorem Act.laidOut {d d' : Draft} (hs : d.rest <:+ Token.lex source) (h : Act d d')
    (hd : d.LaidOut source) : d'.LaidOut source := by
  have hleave : ∀ {rest : List Token} {b : Builder},
      b.Laid (fun offset => isBoundary offset source.toList) rest → b.outer ≠ [] →
      (b.leave 0).Laid (fun offset => isBoundary offset source.toList) rest := by
    intro rest b hb ho
    exact hb.leave ho (isBoundary_zero _) fun _ _ => Nat.zero_le _
  have hord := pairwise_of_suffix hs
  cases h with
  | place hk _ _ =>
      exact Builder.Laid.leaf hd hord (start_lt_stop_of_suffix hs hk) (isBoundary_of_suffix hs) _
  | reject hk =>
      exact Builder.Laid.leaf hd hord (start_lt_stop_of_suffix hs hk) (isBoundary_of_suffix hs) _
  | enter hl _ =>
      exact Builder.Laid.enter_leaf hd hord (start_lt_stop_of_suffix hs hl)
        (isBoundary_of_suffix hs) _ _
  | complete hl _ ho =>
      have hleaf := Builder.Laid.leaf hd hord (start_lt_stop_of_suffix hs hl)
        (isBoundary_of_suffix hs)
      exact hleave (hleaf _) ho
  | wrap hb hn ho => exact Builder.Laid.wrap hd hb hn ho
  | conclude _ _ _ ho => exact hleave hd ho
  | forgo _ _ ho _ => exact hleave hd ho
  | @breakOff t rest b fs wanted _ _ ho =>
      apply Builder.Laid.leave hd ho (isBoundary_of_suffix hs).1
      intro u hu
      rcases List.mem_cons.mp hu with rfl | hu
      · exact Nat.le_refl _
      · have hle := List.rel_of_pairwise_cons hord hu
        have : t.start ≤ t.stop := Nat.le_add_right _ _
        omega
  | complain _ _ => exact hd

end Draft

namespace Document

/-- Nothing has been laid out before the reading begins. -/
theorem laidOut_start (source : String) : (Draft.start source).LaidOut source :=
  ⟨⟨.nil, fun _ h => absurd h List.not_mem_nil, fun _ h => absurd h List.not_mem_nil⟩, trivial⟩

end Document

end GolfAssist
