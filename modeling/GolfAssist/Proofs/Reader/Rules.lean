import GolfAssist.Reader.Step

/-!
# The rules of reading

* `Reader.Ready` — what is true of a reader in front of a token: how its open nodes are nested,
  and that the token is one it has a use for.
* `Reader.Turn` — the rules by which a token that is no comment changes a reader, each with the
  conditions under which it applies.
* `Reader.step_turn` — a step of a ready reader follows one of the rules, and
  `Reader.Turn.ready` — the reader is ready again for the next token.

The rules say everything that a step can do, so that what holds along a whole reading is proved rule
by rule and the step function is taken apart only here. The one recursive rule is the first: a list
that the token cannot belong to is broken off, and the token is looked at again.
-/

namespace GolfAssist

/-! ## Classes of tokens and of nodes -/

/-- The token is an expression by itself, or is taken for one. -/
def Token.Kind.isAtom : Token.Kind → Bool
  | .variable | .integer | .string | .word | .op | .unknown => true
  | _ => false

/-- The node that the token opens where a value is read. -/
def Token.Kind.opens? : Token.Kind → Option Node.Kind
  | .openParen => some .sexpr
  | .openBrace => some .variants
  | _ => none

/-- The closer that is missing, where the problem is that. -/
def Problem.closer? : Problem → Option Wanted
  | .missing .closeParen _ => some .closeParen
  | .missing .closeBrace _ => some .closeBrace
  | _ => none

namespace Node.Kind

/-- Expressions stand in nodes of this kind. -/
def holdsValues : Node.Kind → Bool
  | .program | .sexpr | .variants => true
  | _ => false

/-- Types are read in a node of this kind, or after a colon in it. -/
def holdsTypes (kind : Node.Kind) : Bool :=
  kind.holdsValues || kind = .typedExpr || kind = .typeSexpr

/-- An open node of the kind `inner` can stand directly inside one of the kind `outer`. -/
def mayEnclose (outer inner : Node.Kind) : Bool :=
  match inner with
  | .sexpr | .variants | .typedExpr => outer.holdsValues
  | .typeSexpr | .typeRange => outer.holdsTypes
  | _ => false

/-- The token that closes a value of the kind. -/
def closer? : Node.Kind → Option Token.Kind
  | .sexpr => some .closeParen
  | .variants => some .closeBrace
  | _ => none

/-- The token divides the expressions of the region. -/
def isDividedBy (region : Node.Kind) (kind : Token.Kind) : Bool :=
  region.holdsValues && kind = .semicolon || region = .variants && kind = .slash

/-- The token becomes an error in the region. -/
def rejects (region : Node.Kind) (kind : Token.Kind) : Bool :=
  match region, kind with
  | .program, .closeParen | .program, .closeBrace | .program, .slash | .sexpr, .slash => true
  | .typeSexpr, .variable | .typeSexpr, .string | .typeSexpr, .op | .typeSexpr, .openBrace
  | .typeSexpr, .colon | .typeSexpr, .unknown => true
  | _, _ => false

/-- The problem with a token that becomes an error in the region. -/
def objection (region : Node.Kind) (t : Token) : Problem :=
  match region with
  | .sexpr => .slashOutsideBraces
  | .typeSexpr => .missingBefore .type t
  | _ => .stray t.text

/-- A token that becomes an error is no closer that is missing. -/
theorem closer?_objection (region : Node.Kind) (t : Token) :
    (region.objection t).closer? = none := by
  unfold objection
  split <;> rfl

end Node.Kind

/-! ## Readers in front of a token -/

/-- The open nodes of a tree under construction, from the inside out: the last one is the root, each
of the others has a child and stands where one of its kind can stand. -/
def Nested : List Frame → Prop
  | [] => False
  | [root] => root.id = 0 ∧ root.kind = .program ∧ root.start = 0
  | inner :: outer :: frames =>
      outer.kind.mayEnclose inner.kind ∧ inner.children ≠ [] ∧ Nested (outer :: frames)

/-- Nothing but the number, the kind and the start of the innermost node, and whether it has a
child, counts for the nesting. -/
theorem Nested.congr_top {f g : Frame} {fs : List Frame} (h : Nested (f :: fs))
    (hid : g.id = f.id) (hkind : g.kind = f.kind) (hstart : g.start = f.start)
    (hne : f.children ≠ [] → g.children ≠ []) : Nested (g :: fs) := by
  cases fs with
  | nil => exact ⟨hid ▸ h.1, hkind ▸ h.2.1, hstart ▸ h.2.2⟩
  | cons o fs => exact ⟨hkind ▸ h.1, hne h.2.1, h.2.2⟩

/-- One more child does not change the nesting. -/
theorem Nested.push {f : Frame} {fs : List Frame} (h : Nested (f :: fs)) (n : Node) :
    Nested (f.push n :: fs) :=
  h.congr_top rfl rfl rfl fun _ => List.cons_ne_nil _ _

/-- The root is alone when it is the innermost open node. -/
theorem Nested.eq_nil_of_program {f : Frame} {fs : List Frame} (h : Nested (f :: fs))
    (hf : f.kind = .program) : fs = [] := by
  cases fs with
  | nil => rfl
  | cons g fs =>
      have := h.1
      rw [hf] at this
      cases this

/-- A node of any other kind has one around it that can enclose it. -/
theorem Nested.exists_cons {f : Frame} {fs : List Frame} (h : Nested (f :: fs))
    (hf : f.kind ≠ .program) : ∃ g gs, fs = g :: gs ∧ g.kind.mayEnclose f.kind ∧
      f.children ≠ [] ∧ Nested (g :: gs) := by
  cases fs with
  | nil => exact absurd h.2.1 hf
  | cons g gs => exact ⟨g, gs, rfl, h⟩

namespace Reader

/-- The open nodes, from the inside out. -/
def frames (r : Reader) : List Frame := r.builder.top :: r.builder.outer

/-- The token is one that the reader has a use for. -/
def Due (r : Reader) (t : Token) : Prop :=
  match r.expects with
  | .item => r.region.holdsValues ∨ r.region = .typeSexpr
  | .colon => r.region = .typedExpr ∧ t.kind = .colon
  | .type => (r.region.holdsValues ∨ r.region = .typedExpr) ∧ t.kind.startsType
  | .dots => r.region = .typeRange ∧ t.isDots
  | .bound => r.region = .typeRange ∧ t.kind = .integer

/-- Any token is one that a reader has a use for where items stand. -/
theorem due_of_item {r : Reader} {t : Token} (hx : r.expects = .item)
    (hr : r.region.holdsValues ∨ r.region = .typeSexpr) : r.Due t := by
  rw [Due, hx]
  exact hr

/-- The reader stands in front of the token. -/
structure Ready (r : Reader) (t : Token) : Prop where
  /-- The open nodes are nested as they can be. -/
  nested : Nested r.frames
  /-- The token is one that the reader has a use for. -/
  due : r.Due t

/-- A type is read next. -/
def AwaitsType (r : Reader) : Prop :=
  r.expects = .type ∨ r.expects = .item ∧ r.region = .typeSexpr

/-- The rules by which the token `t` changes a reader, when `next` is the next token that is no
comment. -/
inductive Turn (t next : Token) : Reader → Reader → Prop where
  /-- A list that the token cannot belong to is broken off in front of it. -/
  | breakOff {r r' : Reader} {wanted : Wanted} (hx : r.expects = .item)
      (hb : r.region.brokenBy t.kind = some wanted)
      (h : Turn t next (r.breakOff wanted t) r') : Turn t next r r'
  /-- The source ends. -/
  | finish {r : Reader} (hx : r.expects = .item) (hr : r.region = .program)
      (ht : t.kind = .eof) : Turn t next r r.attach
  /-- The token divides expressions. -/
  | divide {r : Reader} (hx : r.expects = .item) (ht : r.region.isDividedBy t.kind) :
      Turn t next r (r.shift t.leafKind t)
  /-- The token is an expression. -/
  | atom {r : Reader} (hx : r.expects = .item) (hr : r.region.holdsValues)
      (ht : t.kind.isAtom) : Turn t next r ((r.shift t.leafKind t).endValue next)
  /-- The token opens a list of expressions. -/
  | openList {r : Reader} {kind : Node.Kind} (hx : r.expects = .item) (hr : r.region.holdsValues)
      (ht : t.kind.opens? = some kind) : Turn t next r ((r.enter kind t).shift t.leafKind t)
  /-- The token closes a list of expressions. -/
  | closeList {r : Reader} (hx : r.expects = .item) (ht : r.region.closer? = some t.kind) :
      Turn t next r ((r.shift t.leafKind t).leave.endValue next)
  /-- The token does not belong where it stands. -/
  | stray {r : Reader} {problem : Problem} (hx : r.expects = .item)
      (ht : r.region.rejects t.kind) (hp : problem = r.region.objection t) :
      Turn t next r (r.reject t problem)
  /-- A colon comes without an expression. -/
  | bareColon {r : Reader} (hx : r.expects = .item) (hr : r.region.holdsValues)
      (ht : t.kind = .colon) : Turn t next r ((r.reject t .bareColon).awaitType next)
  /-- A colon comes after an expression. -/
  | colon {r : Reader} (hx : r.expects = .colon) (hr : r.region = .typedExpr)
      (ht : t.kind = .colon) : Turn t next r ((r.shift .colon t).awaitType next)
  /-- The token names a type. -/
  | typeName {r : Reader} (hr : r.AwaitsType) (ht : t.kind = .word) :
      Turn t next r ((r.shift .typeName t).endType)
  /-- The token is an integer that is a type. -/
  | typeInteger {r : Reader} (hr : r.AwaitsType) (ht : t.kind = .integer)
      (hn : next.isDots = false) : Turn t next r ((r.shift .integer t).endType)
  /-- The token opens a list of types. -/
  | openTypes {r : Reader} (hr : r.AwaitsType) (ht : t.kind = .openParen) :
      Turn t next r { (r.enter .typeSexpr t).shift .openParen t with expects := .item }
  /-- The token closes a list of types. -/
  | closeTypes {r : Reader} (hx : r.expects = .item) (hr : r.region = .typeSexpr)
      (ht : t.kind = .closeParen) : Turn t next r ((r.shift .closeParen t).leave.endType)
  /-- The token is the lower bound of a range. -/
  | openRange {r : Reader} (hr : r.AwaitsType) (ht : t.kind = .integer) (hn : next.isDots) :
      Turn t next r { (r.enter .typeRange t).shift .integer t with expects := .dots }
  /-- The dots of a range are followed by its upper bound. -/
  | dots {r : Reader} (hx : r.expects = .dots) (hr : r.region = .typeRange) (ht : t.isDots)
      (hn : next.kind = .integer) : Turn t next r { r.shift .opalias t with expects := .bound }
  /-- The dots of a range are not followed by its upper bound. -/
  | dotsOnly {r : Reader} (hx : r.expects = .dots) (hr : r.region = .typeRange) (ht : t.isDots)
      (hn : next.kind ≠ .integer) :
      Turn t next r
        (((r.shift .opalias t).report next (.missingBefore .rangeBound next)).leave.endType)
  /-- The token is the upper bound of a range. -/
  | bound {r : Reader} (hx : r.expects = .bound) (hr : r.region = .typeRange)
      (ht : t.kind = .integer) : Turn t next r ((r.shift .integer t).leave.endType)

/-! ## A step follows a rule -/

variable {r r' : Reader} {t next : Token}

/-- Where a type is read, the token follows one of the rules about types. -/
theorem beginType_turn (hr : r.AwaitsType) (ht : t.kind.startsType) :
    Turn t next r (r.beginType t next) := by
  unfold beginType
  split
  · exact .typeName hr ‹_›
  · exact .openTypes hr ‹_›
  · by_cases hn : next.isDots
    · rw [if_pos hn]
      exact .openRange hr ‹_› hn
    · rw [if_neg hn]
      exact .typeInteger hr ‹_› (by simpa using hn)
  · simp_all [Token.Kind.startsType]

/-- Where a value is read, the token follows one of the rules about the beginning of expressions. -/
theorem beginExpr_turn (hx : r.expects = .item) (hr : r.region.holdsValues)
    (ht : t.kind.isAtom ∨ (∃ kind, t.kind.opens? = some kind) ∨ t.kind = .colon) :
    Turn t next r (r.beginExpr t next) := by
  unfold beginExpr
  split
  · rename_i hk
    have h : Turn t next r ((r.enter .sexpr t).shift t.leafKind t) :=
      .openList hx hr (by rw [hk]; rfl)
    rwa [Token.leafKind, hk] at h
  · rename_i hk
    have h : Turn t next r ((r.enter .variants t).shift t.leafKind t) :=
      .openList hx hr (by rw [hk]; rfl)
    rwa [Token.leafKind, hk] at h
  · exact .bareColon hx hr ‹_›
  · refine .atom hx hr ?_
    rcases ht with ht | ⟨kind, ht⟩ | ht
    · exact ht
    · unfold Token.Kind.opens? at ht
      split at ht <;> simp_all
    · simp_all

/-- A semicolon divides expressions wherever they stand. -/
theorem semicolon_turn (hx : r.expects = .item) (hr : r.region.holdsValues)
    (ht : t.kind = .semicolon) : Turn t next r (r.shift .semicolon t) := by
  have h : Turn t next r (r.shift t.leafKind t) :=
    .divide hx (by simp [Node.Kind.isDividedBy, hr, ht])
  rwa [Token.leafKind, ht] at h

/-- A token that belongs to the open node follows one of the rules about items. -/
theorem item_turn (hr : r.Ready t) (hx : r.expects = .item) (hc : t.isTrivia = false)
    (hb : r.region.brokenBy t.kind = none) : Turn t next r (r.item t next) := by
  have hc : t.kind ≠ .lineComment := by simpa [Token.isTrivia] using hc
  have hdue := hr.due
  rw [Due, hx] at hdue
  unfold item
  split
  · rename_i hreg
    by_cases hclose : t.kind = .closeParen
    · rw [if_pos hclose]
      exact .closeTypes hx hreg hclose
    · rw [if_neg hclose]
      by_cases hstart : t.kind.startsType
      · exact beginType_turn (.inr ⟨hx, hreg⟩) hstart
      · have heq : r.beginType t next = r.reject t (.missingBefore .type t) := by
          unfold beginType
          split <;> simp_all [Token.Kind.startsType]
        rw [heq]
        refine .stray hx ?_ (by rw [hreg]; rfl)
        rw [hreg] at hb ⊢
        cases hk : t.kind <;>
          simp_all [Node.Kind.rejects, Node.Kind.brokenBy, Token.Kind.startsType]
  · rename_i hreg
    have hv : r.region.holdsValues := by rw [hreg]; rfl
    split
    · exact .closeList hx (by rw [hreg]; simp_all [Node.Kind.closer?])
    · exact .stray hx (by rw [hreg]; simp_all [Node.Kind.rejects]) (by rw [hreg]; rfl)
    · exact semicolon_turn hx hv ‹_›
    · refine beginExpr_turn hx hv ?_
      rw [hreg] at hb
      cases hk : t.kind <;> simp_all [Node.Kind.brokenBy, Token.Kind.isAtom, Token.Kind.opens?]
  · rename_i hreg
    have hv : r.region.holdsValues := by rw [hreg]; rfl
    split
    · exact .closeList hx (by rw [hreg]; simp_all [Node.Kind.closer?])
    · rename_i hk
      have h : Turn t next r (r.shift t.leafKind t) := .divide hx (by rw [hreg, hk]; rfl)
      rwa [Token.leafKind, hk] at h
    · exact semicolon_turn hx hv ‹_›
    · refine beginExpr_turn hx hv ?_
      rw [hreg] at hb
      cases hk : t.kind <;> simp_all [Node.Kind.brokenBy, Token.Kind.isAtom, Token.Kind.opens?]
  · have hreg : r.region = .program := by
      rcases hdue with hv | hv
      · cases hk : r.region <;> simp_all [Node.Kind.holdsValues]
      · simp_all
    have hv : r.region.holdsValues := by rw [hreg]; rfl
    split
    · exact .finish hx hreg ‹_›
    · exact .stray hx (by rw [hreg]; simp_all [Node.Kind.rejects]) (by rw [hreg]; rfl)
    · exact .stray hx (by rw [hreg]; simp_all [Node.Kind.rejects]) (by rw [hreg]; rfl)
    · exact .stray hx (by rw [hreg]; simp_all [Node.Kind.rejects]) (by rw [hreg]; rfl)
    · exact semicolon_turn hx hv ‹_›
    · refine beginExpr_turn hx hv ?_
      cases hk : t.kind <;> simp_all [Token.Kind.isAtom, Token.Kind.opens?]

/-! ## What the moves do to the open nodes -/

/-- Comments change nothing about the open node but its children. -/
theorem attach_top (r : Reader) :
    ∃ comments, r.attach.builder.top =
      { r.builder.top with children := comments ++ r.builder.top.children } := by
  unfold attach
  dsimp only
  induction r.comments with
  | nil => exact ⟨[], rfl⟩
  | cons c cs ih =>
      obtain ⟨comments, h⟩ := ih
      rw [List.foldr_cons, Builder.leaf, h]
      exact ⟨_ :: comments, rfl⟩

/-- Comments do not touch the nodes around the open one. -/
@[simp] theorem attach_outer (r : Reader) : r.attach.builder.outer = r.builder.outer := by
  unfold attach
  dsimp only
  induction r.comments with
  | nil => rfl
  | cons c cs ih => exact ih

/-- Comments do not touch the kind of the open node. -/
@[simp] theorem attach_region (r : Reader) : r.attach.region = r.region := by
  obtain ⟨comments, h⟩ := r.attach_top
  unfold region
  rw [h]

/-- The region is the kind of the innermost open node. -/
theorem region_of_frames {f : Frame} {fs : List Frame} (h : r.frames = f :: fs) :
    r.region = f.kind :=
  congrArg Frame.kind (List.cons.inj h).1

/-- A leaf goes into the open node, after the comments in front of it. -/
theorem frames_shift (r : Reader) (kind : Node.Kind) (t : Token) :
    (r.shift kind t).frames =
      r.attach.builder.top.push ⟨r.attach.builder.next, kind, t.span, []⟩
        :: r.attach.builder.outer := rfl

/-- A leaf does not touch the kind of the open node. -/
@[simp] theorem shift_region (r : Reader) (kind : Node.Kind) (t : Token) :
    (r.shift kind t).region = r.region := by
  rw [← attach_region r]
  rfl

/-- A new open node has its first token as its only child. -/
theorem frames_enter_shift (r : Reader) (kind leaf : Node.Kind) (t : Token) :
    ((r.enter kind t).shift leaf t).frames =
      ⟨r.attach.builder.next, kind, t.start,
        [⟨r.attach.builder.next + 1, leaf, t.span, []⟩]⟩ :: r.attach.frames := rfl

/-- A closed node becomes a child of the node around it. -/
theorem frames_leaveAt {r : Reader} {f g : Frame} {fs : List Frame} (h : r.frames = f :: g :: fs)
    (stop : Nat) : (r.leaveAt stop).frames = g.push (f.close stop) :: fs := by
  obtain ⟨htop, houter⟩ := List.cons.inj h
  unfold frames leaveAt Builder.leave
  rw [houter, htop]

/-- With its type an expression is complete. -/
theorem endType_of_typedExpr (h : r.region = .typedExpr) :
    r.endType = { r.leave with expects := .item } := if_pos h

/-- A type that no expression waits for ends nothing. -/
theorem endType_of_ne_typedExpr (h : r.region ≠ .typedExpr) :
    r.endType = { r with expects := .item } := if_neg h

/-- After a type, items are expected. -/
@[simp] theorem endType_expects (r : Reader) : r.endType.expects = .item := by
  unfold endType
  dsimp only
  split <;> rfl

/-- The end of a type opens no node. -/
theorem length_frames_endType_le (r : Reader) : r.endType.frames.length ≤ r.frames.length := by
  by_cases h : r.region = .typedExpr
  · rw [endType_of_typedExpr h]
    unfold leave leaveAt Builder.leave frames
    dsimp only
    split <;> simp_all
  · rw [endType_of_ne_typedExpr h]
    exact Nat.le_refl _

/-- A type is awaited if the next token can begin one. -/
theorem awaitType_of_startsType (h : next.kind.startsType) :
    r.awaitType next = { r with expects := .type } := if_pos h

/-- A type that cannot begin with the next token is reported there. -/
theorem awaitType_of_not_startsType (h : ¬ next.kind.startsType) :
    r.awaitType next = (r.report next (.missingBefore .type next)).endType := if_neg h

/-- A list of types that is broken off is a type for what is around it. -/
theorem breakOff_of_typeSexpr {wanted : Wanted} (h : r.region = .typeSexpr) :
    r.breakOff wanted t =
      ((r.attach.report t (.missingBefore wanted t)).leaveAt t.start).endType := if_pos h

/-- A list of expressions that is broken off is closed. -/
theorem breakOff_of_ne_typeSexpr {wanted : Wanted} (h : r.region ≠ .typeSexpr) :
    r.breakOff wanted t = (r.attach.report t (.missingBefore wanted t)).leaveAt t.start := if_neg h

/-- Without a colon after it, a value is complete. -/
theorem endValue_of_ne_colon (h : next.kind ≠ .colon) : r.endValue next = r := if_neg h

/-- With a colon after it, a value is wrapped. -/
theorem endValue_of_colon {n : Node} {others : List Node} (h : next.kind = .colon)
    (hr : r.builder.top.children = n :: others) :
    r.endValue next = { r with
      builder := { r.builder with
        next := r.builder.next + 1
        top := ⟨r.builder.next, .typedExpr, n.span.start, [n]⟩
        outer := { r.builder.top with children := others } :: r.builder.outer }
      expects := .colon } := by
  unfold endValue Builder.wrap?
  rw [if_pos h, hr]

/-- Wrapping takes the newest child out of the open node and into a new one. -/
theorem frames_endValue_of_colon {f : Frame} {n : Node} {fs : List Frame}
    (h : next.kind = .colon) (hr : r.frames = f.push n :: fs) :
    (r.endValue next).frames = ⟨r.builder.next, .typedExpr, n.span.start, [n]⟩ :: f :: fs := by
  obtain ⟨htop, houter⟩ := List.cons.inj hr
  rw [endValue_of_colon h (congrArg Frame.children htop)]
  unfold frames
  rw [houter, htop]
  rfl

/-! ## The reader is ready again -/

/-- Comments do not change the nesting. -/
theorem nested_attach (h : Nested r.frames) : Nested r.attach.frames := by
  obtain ⟨comments, htop⟩ := r.attach_top
  unfold frames at h ⊢
  rw [attach_outer, htop]
  refine h.congr_top rfl rfl rfl fun hne => ?_
  simp [hne]

/-- A leaf does not change the nesting. -/
theorem nested_shift (h : Nested r.frames) (kind : Node.Kind) (t : Token) :
    Nested (r.shift kind t).frames :=
  (nested_attach h).push _

/-- A node with its first token stands inside the open one if that can enclose it. -/
theorem nested_enter_shift (h : Nested r.frames) {kind : Node.Kind} (leaf : Node.Kind) (t : Token)
    (hk : r.region.mayEnclose kind) : Nested ((r.enter kind t).shift leaf t).frames := by
  rw [frames_enter_shift]
  refine ⟨?_, List.cons_ne_nil _ _, nested_attach h⟩
  rwa [← attach_region] at hk

/-- A node that is not the root has a child, and one around it that can enclose it. -/
theorem exists_frames (hn : Nested r.frames) (hr : r.region ≠ .program) :
    ∃ f g gs, r.frames = f :: g :: gs ∧ g.kind.mayEnclose r.region ∧ f.children ≠ [] ∧
      Nested (g :: gs) := by
  obtain ⟨g, gs, houter, henc, hne, hgs⟩ := hn.exists_cons hr
  exact ⟨r.builder.top, g, gs, congrArg _ houter, henc, hne, hgs⟩

/-- After a type the reader goes on with items. -/
theorem ready_endType (hn : Nested r.frames) (hr : r.region.holdsTypes) : r.endType.Ready next := by
  by_cases hreg : r.region = .typedExpr
  · obtain ⟨f, g, gs, hframes, henc, -, hgs⟩ := exists_frames hn (by rw [hreg]; simp)
    have hleave := frames_leaveAt hframes 0
    rw [hreg] at henc
    rw [endType_of_typedExpr hreg]
    refine ⟨?_, .inl ?_⟩
    · show Nested (r.leaveAt 0).frames
      rw [hleave]
      exact hgs.push _
    · show (r.leaveAt 0).region.holdsValues
      rw [region_of_frames hleave]
      exact henc
  · rw [endType_of_ne_typedExpr hreg]
    refine ⟨hn, ?_⟩
    simp only [Node.Kind.holdsTypes, Bool.or_eq_true, decide_eq_true_eq] at hr
    rcases hr with (hv | ht) | ht
    · exact .inl hv
    · exact absurd ht hreg
    · exact .inr ht

/-- Where a type can stand, the reader awaits one or goes on with items. -/
theorem ready_awaitType (hn : Nested r.frames)
    (hr : r.region.holdsValues ∨ r.region = .typedExpr) : (r.awaitType next).Ready next := by
  by_cases hs : next.kind.startsType
  · rw [awaitType_of_startsType hs]
    exact ⟨hn, hr, hs⟩
  · rw [awaitType_of_not_startsType hs]
    refine ready_endType hn ?_
    show r.region.holdsTypes
    simp only [Node.Kind.holdsTypes, Bool.or_eq_true, decide_eq_true_eq]
    exact .inl hr

/-- After a value the reader goes on with items, or with the colon that follows. -/
theorem ready_endValue {f : Frame} {n : Node} {fs : List Frame} (hx : r.expects = .item)
    (hr : r.frames = f.push n :: fs) (hn : Nested (f :: fs)) (hv : f.kind.holdsValues) :
    (r.endValue next).Ready next := by
  by_cases hc : next.kind = .colon
  · have hframes := frames_endValue_of_colon hc hr
    have htop := (List.cons.inj hframes).1
    refine ⟨?_, ?_⟩
    · rw [hframes]
      exact ⟨hv, List.cons_ne_nil _ _, hn⟩
    · have hexp : (r.endValue next).expects = .colon := by
        rw [endValue_of_colon hc (congrArg Frame.children (List.cons.inj hr).1)]
      rw [Due, hexp]
      exact ⟨congrArg Frame.kind htop, hc⟩
  · rw [endValue_of_ne_colon hc]
    exact ⟨hr ▸ hn.push n, due_of_item hx (.inl (region_of_frames hr ▸ hv))⟩

/-- Only lists are broken off. -/
theorem region_of_brokenBy {wanted : Wanted} (hb : r.region.brokenBy t.kind = some wanted) :
    r.region = .sexpr ∨ r.region = .variants ∨ r.region = .typeSexpr := by
  unfold Node.Kind.brokenBy at hb
  split at hb <;> simp_all

/-- A list that is broken off leaves a reader in front of the same token, with fewer open nodes. -/
theorem ready_breakOff {wanted : Wanted} (h : r.Ready t) (hx : r.expects = .item)
    (hb : r.region.brokenBy t.kind = some wanted) :
    (r.breakOff wanted t).Ready t ∧ (r.breakOff wanted t).expects = .item ∧
      (r.breakOff wanted t).frames.length < r.frames.length := by
  have hreg := region_of_brokenBy hb
  obtain ⟨f, g, gs, hframes, henc, -, hgs⟩ := exists_frames (nested_attach h.nested)
    (by rw [attach_region]; rcases hreg with hreg | hreg | hreg <;> rw [hreg] <;> simp)
  have hlen : r.frames.length = gs.length + 2 := by
    rw [show r.frames.length = r.attach.frames.length by simp [frames], hframes]
    rfl
  have hleave : ((r.attach.report t (.missingBefore wanted t)).leaveAt t.start).frames = _ :=
    frames_leaveAt hframes t.start
  have hregion := region_of_frames hleave
  rw [attach_region] at henc
  by_cases htype : r.region = .typeSexpr
  · rw [breakOff_of_typeSexpr htype]
    rw [htype] at henc
    have hready : Ready _ t := ready_endType (hleave ▸ hgs.push _) (hregion ▸ henc)
    refine ⟨hready, endType_expects _, Nat.lt_of_le_of_lt (length_frames_endType_le _) ?_⟩
    rw [hleave, hlen, List.length_cons]
    omega
  · rw [breakOff_of_ne_typeSexpr htype]
    have hv : g.kind.holdsValues := by
      rcases hreg with hreg | hreg | hreg
      · rwa [hreg] at henc
      · rwa [hreg] at henc
      · exact absurd hreg htype
    refine ⟨⟨hleave ▸ hgs.push _, due_of_item hx (.inl (hregion ▸ hv))⟩, hx, ?_⟩
    rw [hleave, hlen, List.length_cons]
    omega

/-- Looking at a token in a reader, with enough room to break lists off, follows a rule. -/
theorem unwind_turn (hr : r.Ready t) (hx : r.expects = .item) (hc : t.isTrivia = false)
    (depth : Nat) (hd : r.builder.outer.length ≤ depth) :
    Turn t next r ((unwind depth r t).item t next) := by
  induction depth generalizing r with
  | zero =>
      have hnil : r.builder.outer = [] := List.eq_nil_of_length_eq_zero (by omega)
      have hprog : r.region = .program := by
        have := hr.nested
        rw [frames, hnil] at this
        exact this.2.1
      exact item_turn hr hx hc (by rw [hprog]; rfl)
  | succ depth ih =>
      rw [unwind]
      split
      · rename_i wanted hb
        obtain ⟨hready, hitem, hlen⟩ := ready_breakOff hr hx hb
        refine .breakOff hx hb (ih hready hitem ?_)
        simp only [frames, List.length_cons] at hlen
        omega
      · exact item_turn hr hx hc ‹_›

/-- A node that is not the root can be left, and becomes a child of one that can enclose it. -/
theorem frames_leave (hn : Nested r.frames) (hr : r.region ≠ .program) :
    ∃ g gs n, r.leave.frames = g.push n :: gs ∧ g.kind.mayEnclose r.region ∧ Nested (g :: gs) := by
  obtain ⟨f, g, gs, hframes, henc, -, hgs⟩ := exists_frames hn hr
  exact ⟨g, gs, _, frames_leaveAt hframes 0, henc, hgs⟩

/-- After the end of a node that is a type the reader goes on with items. -/
theorem ready_leave_endType (hn : Nested r.frames)
    (hr : r.region = .typeSexpr ∨ r.region = .typeRange) : r.leave.endType.Ready next := by
  obtain ⟨g, gs, n, hleave, henc, hgs⟩ := frames_leave hn (by rcases hr with hr | hr <;> simp [hr])
  have hg : g.kind.holdsTypes := by rcases hr with hr | hr <;> rwa [hr] at henc
  exact ready_endType (hleave ▸ hgs.push n) (region_of_frames hleave ▸ hg)

/-- Where a type is awaited, it can stand. -/
theorem AwaitsType.holdsTypes (h : r.AwaitsType) (hr : r.Ready t) : r.region.holdsTypes := by
  have hdue := hr.due
  rcases h with hx | ⟨hx, hreg⟩
  · rw [Due, hx] at hdue
    simp only [Node.Kind.holdsTypes, Bool.or_eq_true, decide_eq_true_eq]
    exact .inl hdue.1
  · rw [hreg]
    rfl

/-- **A turn leaves a reader ready.** It stands in front of the next token. -/
theorem Turn.ready (h : Turn t next r r') (hr : r.Ready t) : r'.Ready next := by
  induction h with
  | breakOff hx hb _ ih => exact ih (ready_breakOff hr hx hb).1
  | finish hx hreg _ =>
      exact ⟨nested_attach hr.nested, due_of_item hx (.inl (by rw [attach_region, hreg]; rfl))⟩
  | @divide r hx ht =>
      refine ⟨nested_shift hr.nested _ _, due_of_item hx (.inl ?_)⟩
      rw [shift_region]
      simp only [Node.Kind.isDividedBy, Bool.or_eq_true, Bool.and_eq_true, decide_eq_true_eq] at ht
      rcases ht with ht | ht
      · exact ht.1
      · rw [ht.1]
        rfl
  | @atom r hx hreg _ =>
      refine ready_endValue hx (frames_shift _ _ _) (nested_attach hr.nested) ?_
      rwa [← attach_region] at hreg
  | @openList r kind hx hreg ht =>
      have hk : kind = .sexpr ∨ kind = .variants := by
        unfold Token.Kind.opens? at ht
        split at ht <;> simp_all
      refine ⟨nested_enter_shift hr.nested _ _ ?_, due_of_item hx (.inl ?_)⟩
      · rcases hk with rfl | rfl <;> exact hreg
      · show kind.holdsValues
        rcases hk with rfl | rfl <;> rfl
  | @closeList r hx ht =>
      have hk : r.region = .sexpr ∨ r.region = .variants := by
        unfold Node.Kind.closer? at ht
        split at ht <;> simp_all
      obtain ⟨g, gs, n, hleave, henc, hgs⟩ := frames_leave (nested_shift hr.nested t.leafKind t)
        (by rcases hk with hk | hk <;> simp [hk])
      refine ready_endValue hx hleave hgs ?_
      rcases hk with hk | hk <;> rwa [shift_region, hk] at henc
  | @stray r problem hx ht =>
      have hdue := hr.due
      rw [Due, hx] at hdue
      refine ⟨nested_shift hr.nested _ _, due_of_item hx ?_⟩
      rw [reject, shift_region]
      exact hdue
  | @bareColon r hx hreg _ =>
      refine ready_awaitType (nested_shift hr.nested _ _) (.inl ?_)
      rw [reject, shift_region]
      exact hreg
  | colon hx hreg _ =>
      exact ready_awaitType (nested_shift hr.nested _ _) (.inr (by rw [shift_region, hreg]))
  | typeName hreg _ =>
      refine ready_endType (nested_shift hr.nested _ _) ?_
      rw [shift_region]
      exact hreg.holdsTypes hr
  | typeInteger hreg _ _ =>
      refine ready_endType (nested_shift hr.nested _ _) ?_
      rw [shift_region]
      exact hreg.holdsTypes hr
  | openTypes hreg _ =>
      exact ⟨nested_enter_shift hr.nested _ _ (hreg.holdsTypes hr), .inr rfl⟩
  | closeTypes hx hreg _ =>
      exact ready_leave_endType (nested_shift hr.nested _ _) (.inl (by rw [shift_region, hreg]))
  | openRange hreg _ hn =>
      exact ⟨nested_enter_shift hr.nested _ _ (hreg.holdsTypes hr), rfl, hn⟩
  | @dots r hx hreg _ hn =>
      exact ⟨nested_shift hr.nested _ _, (shift_region r _ t).trans hreg, hn⟩
  | @dotsOnly r hx hreg _ _ =>
      refine ready_leave_endType (nested_shift hr.nested _ _) (.inr ?_)
      exact (shift_region r _ t).trans hreg
  | @bound r hx hreg _ =>
      refine ready_leave_endType (nested_shift hr.nested _ _) (.inr ?_)
      exact (shift_region r _ t).trans hreg

/-- **A step follows a rule.** Whatever a reader does with a token that it is ready for, is one of
the turns. -/
theorem step_turn (hr : r.Ready t) (hc : t.isTrivia = false) : Turn t next r (r.step t next) := by
  have hdue := hr.due
  unfold step
  rw [if_neg (by simp [hc])]
  cases hx : r.expects <;> rw [Due, hx] at hdue <;> dsimp only
  · exact unwind_turn hr hx hc _ (Nat.le_refl _)
  · exact .colon hx hdue.1 hdue.2
  · exact beginType_turn (.inl hx) hdue.2
  · unfold rangeDots
    dsimp only
    split
    · exact .dots hx hdue.1 hdue.2 ‹_›
    · exact .dotsOnly hx hdue.1 hdue.2 ‹_›
  · exact .bound hx hdue.1 hdue.2

end Reader

end GolfAssist
