import GolfAssist.Proofs.Grammar.Demand
import GolfAssist.Proofs.Token.Place

/-!
# What a reader has read, without places and comments

* `Node.phrase` — a syntax tree without comments, and without the numbers and the places of its
  nodes. A leaf keeps its text.
* `Frame.level`, `Reader.outline` — the same for the open nodes of a reader: what sort of node each
  one is and which parts it has.
* One equation for each move of a reader says what it does to the outline. Comments do nothing, and
  no move looks at more than the innermost two levels.
-/

namespace GolfAssist

/-! ## Phrases of nodes -/

namespace Node

mutual

/-- The tree without comments, numbers and places. -/
def phrase (source : String) : Node → Phrase
  | ⟨id, kind, span, children⟩ =>
    if children.isEmpty then .leaf kind (text source ⟨id, kind, span, children⟩)
    else .node kind (phrases source children)

/-- Neighbouring trees without comments, numbers and places. -/
def phrases (source : String) : List Node → List Phrase
  | [] => []
  | n :: ns =>
    if n.kind = .lineComment then phrases source ns else phrase source n :: phrases source ns

end

variable {source : String}

/-- A comment leaves no phrase. -/
theorem phrases_cons_of_comment {n : Node} (h : n.kind = .lineComment) (ns : List Node) :
    phrases source (n :: ns) = phrases source ns := by
  rw [phrases, if_pos h]

/-- Anything else leaves one. -/
theorem phrases_cons_of_ne_comment {n : Node} (h : n.kind ≠ .lineComment) (ns : List Node) :
    phrases source (n :: ns) = n.phrase source :: phrases source ns := by
  rw [phrases, if_neg h]

/-- Phrases come in the order of the trees. -/
theorem phrases_append (ms ns : List Node) :
    phrases source (ms ++ ns) = phrases source ms ++ phrases source ns := by
  induction ms with
  | nil => rfl
  | cons m ms ih =>
      rw [List.cons_append]
      by_cases hm : m.kind = .lineComment
      · rw [phrases_cons_of_comment hm, phrases_cons_of_comment hm, ih]
      · rw [phrases_cons_of_ne_comment hm, phrases_cons_of_ne_comment hm, ih, List.cons_append]

/-- The phrase of a leaf is what the token at its place stands for. -/
theorem phrase_leaf {t : Token} (ht : t ∈ Token.lex source) (id : Nat) (kind : Node.Kind) :
    phrase source ⟨id, kind, t.span, []⟩ = .leaf kind t.text := by
  have htext : text source ⟨id, kind, t.span, []⟩ = t.text := by
    unfold text textIn
    show String.ofList ((Text.slice? t.start t.stop source.toList).getD []) = t.text
    rw [Token.slice?_of_mem_lex ht, Option.getD_some, String.ofList_toList]
  rw [phrase, htext]
  rfl

/-- The phrase of a node with children is made of theirs. -/
theorem phrase_of_children_ne_nil {n : Node} (h : n.children ≠ []) :
    n.phrase source = .node n.kind (phrases source n.children) := by
  obtain ⟨id, kind, span, children⟩ := n
  have hne : ¬ children.isEmpty := by simpa using h
  rw [phrase, if_neg hne]

end Node

/-! ## Levels of open nodes -/

namespace Frame

variable {source : String}

/-- The open node without its place. -/
def level (source : String) (f : Frame) : Level :=
  ⟨f.kind, Node.phrases source f.children.reverse⟩

/-- A comment does not change a level. -/
theorem level_push_of_comment {n : Node} (h : n.kind = .lineComment) (f : Frame) :
    (f.push n).level source = f.level source := by
  unfold level push
  rw [List.reverse_cons, Node.phrases_append, Node.phrases_cons_of_comment h, Node.phrases,
    List.append_nil]

/-- Any other child is one more part. -/
theorem level_push {n : Node} (h : n.kind ≠ .lineComment) (f : Frame) :
    (f.push n).level source = (f.level source).push (n.phrase source) := by
  unfold level push Level.push Level.append
  rw [List.reverse_cons, Node.phrases_append, Node.phrases_cons_of_ne_comment h, Node.phrases]

/-- A node that is closed becomes the phrase of its level. -/
theorem phrase_close {f : Frame} (h : f.children ≠ []) (stop : Nat) :
    (f.close stop).phrase source = (f.level source).phrase := by
  have hne : (f.close stop).children ≠ [] := by simpa [close] using h
  rw [Node.phrase_of_children_ne_nil hne]
  rfl

end Frame

/-! ## Outlines -/

namespace Reader

variable {source : String} {r : Reader} {t next : Token}

/-- The open nodes of the reader without their places, from the inside out. -/
def outline (source : String) (r : Reader) : List Level := r.frames.map (·.level source)

/-- The outline of a reader with the given open nodes. -/
theorem outline_of_frames {fs : List Frame} (h : r.frames = fs) :
    r.outline source = fs.map (·.level source) := by
  rw [outline, h]

/-- Placing comments does not change the outline. -/
theorem outline_attach (r : Reader) : r.attach.outline source = r.outline source := by
  unfold outline frames
  rw [attach_outer, List.map_cons, List.map_cons]
  congr 1
  unfold attach
  dsimp only
  induction r.comments with
  | nil => rfl
  | cons c cs ih =>
      rw [List.foldr_cons, ← ih]
      exact Frame.level_push_of_comment rfl _

/-- An outline begins with the region. -/
theorem exists_outline (source : String) (r : Reader) :
    ∃ f fs, r.outline source = f :: fs ∧ f.kind = r.region :=
  ⟨_, _, rfl, rfl⟩

/-- Inside of another node, the outline has two levels that can stand inside each other. -/
theorem exists_outline_of_ne_program (source : String) (hn : Nested r.frames)
    (hr : r.region ≠ .program) :
    ∃ f g gs, r.outline source = f :: g :: gs ∧ f.kind = r.region ∧ g.kind.mayEnclose r.region := by
  obtain ⟨f, g, gs, hframes, henc, -, -⟩ := exists_frames hn hr
  exact ⟨_, _, _, outline_of_frames hframes, (region_of_frames hframes).symm, henc⟩

/-- The phrase `p` is the newest part of the innermost level, and the others are the outline
without it. -/
def Newest (source : String) (r : Reader) (p : Phrase) (fs : List Level) : Prop :=
  ∃ f n gs, r.frames = f.push n :: gs ∧ n.kind ≠ .lineComment ∧ n.phrase source = p ∧
    fs = (f :: gs).map (·.level source)

/-- The outline with its newest part. -/
theorem Newest.outline {p : Phrase} {f : Level} {fs : List Level}
    (h : r.Newest source p (f :: fs)) : r.outline source = f.push p :: fs := by
  obtain ⟨g, n, gs, hframes, hn, rfl, hlevels⟩ := h
  rw [List.map_cons] at hlevels
  obtain ⟨rfl, rfl⟩ := List.cons.inj hlevels
  rw [outline_of_frames hframes, List.map_cons, Frame.level_push hn]

/-- A token that is placed is the newest part. -/
theorem newest_shift (ht : t ∈ Token.lex source) {kind : Node.Kind} (hk : kind ≠ .lineComment)
    {fs : List Level} (ho : r.outline source = fs) :
    (r.shift kind t).Newest source (.leaf kind t.text) fs := by
  refine ⟨_, _, _, frames_shift r kind t, hk, Node.phrase_leaf ht _ _, ?_⟩
  rw [← ho, ← outline_attach]
  rfl

/-- A node that is opened with its first token has that token as its only part. -/
theorem outline_enter_shift (ht : t ∈ Token.lex source) {leaf : Node.Kind}
    (hl : leaf ≠ .lineComment) (kind : Node.Kind) {fs : List Level}
    (ho : r.outline source = fs) :
    ((r.enter kind t).shift leaf t).outline source = ⟨kind, [.leaf leaf t.text]⟩ :: fs := by
  rw [outline_of_frames (frames_enter_shift r kind leaf t), List.map_cons, ← ho,
    ← outline_attach r]
  congr 1
  unfold Frame.level
  rw [List.reverse_singleton, Node.phrases_cons_of_ne_comment hl, Node.phrase_leaf ht]
  rfl

/-- A node with another one around it is not the root. -/
theorem ne_program_of_outline (hn : Nested r.frames) {f g : Level} {gs : List Level}
    (h : r.outline source = f :: g :: gs) : r.region ≠ .program := by
  intro hreg
  have hnil := hn.eq_nil_of_program hreg
  rw [outline, frames, hnil] at h
  cases h

/-- A node that is closed is the newest part of the node around it. -/
theorem newest_leaveAt (hn : Nested r.frames) {f g : Level} {gs : List Level}
    (h : r.outline source = f :: g :: gs) (stop : Nat) :
    (r.leaveAt stop).Newest source f.phrase (g :: gs) := by
  obtain ⟨f', g', gs', hframes, henc, hne, -⟩ := exists_frames hn (ne_program_of_outline hn h)
  rw [outline_of_frames hframes, List.map_cons] at h
  obtain ⟨rfl, hlevels⟩ := List.cons.inj h
  refine ⟨_, _, _, frames_leaveAt hframes stop, ?_, Frame.phrase_close hne stop, hlevels.symm⟩
  show f'.kind ≠ .lineComment
  rw [← region_of_frames hframes]
  intro hkind
  rw [hkind] at henc
  cases henc

/-- A value that is wrapped is the only part of a new level. -/
theorem Newest.outline_endValue {p : Phrase} {fs : List Level} (h : r.Newest source p fs)
    (hc : next.kind = .colon) :
    (r.endValue next).outline source = ⟨.typedExpr, [p]⟩ :: fs := by
  obtain ⟨f, n, gs, hframes, hn, rfl, rfl⟩ := h
  rw [outline_of_frames (frames_endValue_of_colon hc hframes), List.map_cons]
  congr 1
  unfold Frame.level
  rw [List.reverse_singleton, Node.phrases_cons_of_ne_comment hn]
  rfl

end Reader

end GolfAssist
