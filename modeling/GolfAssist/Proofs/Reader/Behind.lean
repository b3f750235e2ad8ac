import GolfAssist.Proofs.Reader.Tandem
import GolfAssist.Proofs.Token.Munch

/-!
# Reading behind what has been read

* `Node.movedBy` — a tree with all its numbers and all its offsets moved.
* `Site` — where a reading goes on: how far numbers and offsets have come, and what hangs below the
  root already.
* `Reader.behind` — the reader that has read the same there, and `Reader.read_behind` — what it
  makes of tokens that are moved to that place is what the reader makes of them on its own.

The root is the one node that is not moved: it is open all the time, and gets what is read in both
places. So it matters which open node is the last one (`Frame.behind`). And it matters that a node
is wrapped only when it has just become the newest child of an open node, or else the older children
of the root would be wrapped.
-/

namespace GolfAssist

variable {distance : Nat}

/-! ## Moved trees -/

/-- The span further on by a distance. -/
def Span.movedBy (distance : Nat) (s : Span) : Span := ⟨s.start + distance, s.stop + distance⟩

/-- The finding further on by a distance. -/
def Finding.movedBy (distance : Nat) (f : Finding) : Finding :=
  { f with span := f.span.movedBy distance }

/-- The span of a token moves with it. -/
theorem Token.span_movedBy (t : Token) : (t.movedBy distance).span = t.span.movedBy distance := by
  rw [span, stop_movedBy]
  rfl

namespace Node

mutual

/-- The tree with greater numbers, further on by a distance. -/
def movedBy (numbers distance : Nat) : Node → Node
  | ⟨id, kind, span, children⟩ =>
    ⟨id + numbers, kind, span.movedBy distance, allMovedBy numbers distance children⟩

/-- Neighbouring trees with greater numbers, further on by a distance. -/
def allMovedBy (numbers distance : Nat) : List Node → List Node
  | [] => []
  | n :: ns => movedBy numbers distance n :: allMovedBy numbers distance ns

end

/-- Neighbouring trees are moved one by one. -/
theorem allMovedBy_eq (numbers : Nat) (ns : List Node) :
    allMovedBy numbers distance ns = ns.map (movedBy numbers distance) := by
  induction ns with
  | nil => rw [allMovedBy, List.map_nil]
  | cons n ns ih => rw [allMovedBy, ih, List.map_cons]

/-- A tree is moved with all that is below it. -/
theorem movedBy_eq (numbers : Nat) (n : Node) :
    n.movedBy numbers distance = ⟨n.id + numbers, n.kind, n.span.movedBy distance,
      n.children.map (movedBy numbers distance)⟩ := by
  obtain ⟨id, kind, span, children⟩ := n
  rw [movedBy, allMovedBy_eq]

end Node

/-! ## Sites -/

/-- Where a reading goes on. -/
structure Site where
  /-- The length of the whole source. -/
  length : Nat
  /-- How much greater numbers are. -/
  numbers : Nat
  /-- How much further on offsets are. -/
  distance : Nat
  /-- What hangs below the root already, the newest first. -/
  older : List Node

variable (w : Site)

/-- The site of a reading that begins with the source. -/
def Site.here (length : Nat) : Site := ⟨length, 0, 0, []⟩

/-- The tree at the site. -/
def Node.atSite (n : Node) : Node := n.movedBy w.numbers w.distance

/-- Offsets move with the tree. -/
theorem Node.span_atSite (n : Node) : (n.atSite w).span = n.span.movedBy w.distance := by
  rw [atSite, movedBy_eq]

/-- In a reading that begins with the source, nothing is moved. -/
theorem Node.atSite_here (length : Nat) (n : Node) : n.atSite (.here length) = n := by
  induction n using induct with
  | step n ih =>
      obtain ⟨id, kind, span, children⟩ := n
      have hchildren : children.map (·.atSite (.here length)) = children := by
        rw [List.map_congr_left ih, List.map_id']
      rw [atSite, movedBy_eq]
      exact congrArg (Node.mk id kind span) hchildren

namespace Frame

/-- The open node at the site, when the nodes `outer` are open around it: the root gets its children
behind those it has there, any other node is moved. -/
def behind (f : Frame) : (outer : List Frame) → Frame
  | [] => { f with children := f.children.map (·.atSite w) ++ w.older }
  | _ :: _ => ⟨f.id + w.numbers, f.kind, f.start + w.distance, f.children.map (·.atSite w)⟩

/-- A new child is moved. -/
theorem behind_push (f : Frame) (n : Node) (outer : List Frame) :
    (f.push n).behind w outer = (f.behind w outer).push (n.atSite w) := by
  cases outer <;> rfl

/-- The furthest end of moved children. -/
theorem reach_map_atSite (f : Frame) (id start : Nat) :
    max (reach ⟨id, f.kind, start, f.children.map (·.atSite w)⟩) w.distance =
      f.reach + w.distance := by
  have hfold : ∀ (ns : List Node) (a b : Nat), max a w.distance = b + w.distance →
      max ((ns.map (·.atSite w)).foldl (fun stop n => max stop n.span.stop) a) w.distance =
        ns.foldl (fun stop n => max stop n.span.stop) b + w.distance := by
    intro ns
    induction ns with
    | nil => exact fun a b h => h
    | cons n ns ih =>
        intro a b h
        apply ih
        simp only [Node.span_atSite, Span.movedBy]
        omega
  exact hfold f.children 0 0 (by simp)

/-- Closing a node and moving it, or moving it and closing it where the end has moved to. -/
theorem atSite_close (f : Frame) (o : Frame) (outer : List Frame) {stop stop' : Nat}
    (h : max stop' w.distance = stop + w.distance) :
    (f.close stop).atSite w = (f.behind w (o :: outer)).close stop' := by
  have hreach := reach_map_atSite w f (f.id + w.numbers) (f.start + w.distance)
  rw [Node.atSite, Node.movedBy_eq]
  simp only [close, behind, Span.movedBy, Node.mk.injEq, Span.mk.injEq, true_and, List.map_reverse]
  refine ⟨?_, rfl⟩
  omega

/-- The open nodes at the site. -/
def allBehind : List Frame → List Frame
  | [] => []
  | f :: outer => f.behind w outer :: allBehind outer

end Frame

namespace Builder

/-- The tree under construction at the site. -/
def behind (b : Builder) : Builder :=
  ⟨w.length, b.next + w.numbers, b.top.behind w b.outer, Frame.allBehind w b.outer⟩

/-! Each move can be made before or after. -/

theorem behind_leaf (b : Builder) (kind : Node.Kind) (span : Span) :
    (b.leaf kind span).behind w = (b.behind w).leaf kind (span.movedBy w.distance) := by
  have hchild : Node.atSite w ⟨b.next, kind, span, []⟩ =
      ⟨b.next + w.numbers, kind, span.movedBy w.distance, []⟩ := Node.movedBy_eq _ _
  simp only [behind, leaf, Frame.behind_push, hchild, Nat.add_right_comm]

theorem behind_enter (b : Builder) (kind : Node.Kind) (start : Nat) :
    (b.enter kind start).behind w = (b.behind w).enter kind (start + w.distance) := by
  simp only [behind, enter, Frame.behind, Frame.allBehind, Nat.add_right_comm, List.map_nil]

theorem behind_leave (b : Builder) {stop stop' : Nat}
    (h : max stop' w.distance = stop + w.distance) :
    (b.leave stop).behind w = (b.behind w).leave stop' := by
  rcases houter : b.outer with _ | ⟨f, outer⟩
  · simp only [behind, leave, houter, Frame.allBehind]
  · simp only [behind, leave, houter, Frame.allBehind, Frame.behind_push,
      Frame.atSite_close w b.top f outer h]

theorem behind_wrap? {b b' : Builder} {kind : Node.Kind} (h : b.wrap? kind = some b') :
    (b.behind w).wrap? kind = some (b'.behind w) := by
  unfold wrap? at h
  split at h
  · cases h
  · rename_i last others hchildren
    cases h
    rcases houter : b.outer with _ | ⟨f, outer⟩ <;>
      simp [behind, wrap?, houter, Frame.behind, Frame.allBehind, hchildren, Node.span_atSite,
        Span.movedBy, Nat.add_right_comm]

end Builder

/-! ## Readings at a site -/

/-- The reader that has read the same at the site. -/
def Reader.behind (r : Reader) : Reader :=
  ⟨r.builder.behind w, r.comments.map (·.movedBy w.distance),
    r.findings.map (·.movedBy w.distance), r.expects⟩

/-- Whatever a reader does, it can do at the site. -/
def Site.tandem : Tandem where
  token t t' := t.movedBy w.distance = t'
  builder b b' := b.behind w = b'
  finding f f' := f.movedBy w.distance = f'
  kind_eq := by rintro t _ rfl; rfl
  text_eq := by rintro t _ rfl -; rfl
  complain := by
    rintro t _ c rfl
    rw [Token.span_movedBy]
    cases c <;> rfl
  region_eq := by
    rintro b _ rfl
    rcases houter : b.outer with _ | ⟨f, outer⟩ <;> simp only [Builder.behind, houter, Frame.behind]
  depth_eq := by
    rintro b _ rfl
    show (Frame.allBehind w b.outer).length = b.outer.length
    induction b.outer with
    | nil => rfl
    | cons f outer ih => rw [Frame.allBehind, List.length_cons, ih, List.length_cons]
  leaf := by
    rintro b _ t _ kind rfl rfl
    rw [Builder.behind_leaf, Token.span_movedBy]
  enter := by
    rintro b _ t _ kind rfl rfl
    exact Builder.behind_enter w b kind t.start
  leave := by
    rintro b _ rfl
    apply Builder.behind_leave
    simp
  leaveAt := by
    rintro b _ t _ rfl rfl
    apply Builder.behind_leave
    show max (t.start + w.distance) w.distance = t.start + w.distance
    omega
  wrap := by
    rintro b _ rfl hchild
    obtain ⟨last, others, hchildren⟩ := List.exists_cons_of_ne_nil hchild
    obtain ⟨b', hb'⟩ : ∃ b', b.wrap? .typedExpr = some b' := ⟨_, by rw [Builder.wrap?, hchildren]⟩
    rw [hb', Builder.behind_wrap? w hb']
    exact .some rfl

namespace Reader

variable {w}

/-- The reader that is paired with a reader is the one that has read the same at the site. -/
theorem paired_iff_behind {r r' : Reader} : Paired w.tandem r r' ↔ r.behind w = r' := by
  have hmap : ∀ {α : Type} {f : α → α} {as bs : List α},
      List.Forall₂ (fun a b => f a = b) as bs ↔ as.map f = bs := by
    intro α f as bs
    rw [← List.forall₂_map_left_iff, List.forall₂_eq_eq_eq]
  constructor
  · rintro ⟨hbuilder, hcomments, hfindings, hexpects⟩
    rw [behind, hmap.mp hcomments, hmap.mp hfindings, ← hexpects,
      show r.builder.behind w = _ from hbuilder]
  · rintro rfl
    exact ⟨rfl, hmap.mpr rfl, hmap.mpr rfl, rfl⟩

/-- Comments are placed at the site as they are elsewhere. -/
theorem behind_attach (r : Reader) : r.attach.behind w = (r.behind w).attach :=
  paired_iff_behind.mp (paired_iff_behind.mpr rfl).attach

/-- The next token that is no comment moves with the others. -/
theorem upcoming_movedBy (last : Token) (ts : List Token) :
    upcoming (last.movedBy distance) (ts.map (·.movedBy distance)) =
      (upcoming last ts).movedBy distance := by
  unfold upcoming
  rw [List.find?_map, Option.getD_map]
  rfl

/-- **Reading at a site.** Tokens that are moved to the site make there of a reader what they make
of it on their own. -/
theorem read_behind (last : Token) (r : Reader) (ts : List Token) :
    (read last r ts).behind w =
      read (last.movedBy w.distance) (r.behind w) (ts.map (·.movedBy w.distance)) := by
  have hstart : Paired w.tandem r (r.behind w) := paired_iff_behind.mpr rfl
  have htokens : List.Forall₂ w.tandem.token ts (ts.map (·.movedBy w.distance)) := by
    rw [List.forall₂_map_right_iff]
    exact List.forall₂_same.mpr fun _ _ => rfl
  exact paired_iff_behind.mp (hstart.read rfl htokens)

end Reader

end GolfAssist
