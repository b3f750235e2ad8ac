import GolfAssist.Proofs.Tree.Shape

/-!
# Every node has the shape of its kind

* `Builder.Shapely` — what is finished of a tree under construction is shaped, and all open nodes
  have the children that they should have so far.
* `Builder.Took`, `Builder.Complete` — the two states in between, when a child has just been added
  and when the open node is about to be closed.
* `Reader.Turn.shapely` — every turn keeps a tree under construction shapely.
* `Document.tree_shaped` — every node of a document is shaped.

What the open node waits for is known to the reader. What those around it wait for is not, and is
read off the kind of the node inside: they wait for a type if that is one, and for items otherwise.
-/

namespace GolfAssist

open Node

/-! ## Trees under construction -/

/-- What an open node goes on with when a node of the kind `inner` inside it has been closed. -/
def Node.Kind.resumes (outer inner : Kind) : Expectation :=
  if inner.isTypeOnly && outer ≠ .typeSexpr then .type else .item

/-- A type is expected in an open node of the kind, or an item of a list of types. -/
def Node.Kind.AwaitsType (kind : Kind) (x : Expectation) : Prop :=
  x = .type ∧ (kind.holdsValues ∨ kind = .typedExpr) ∨ x = .item ∧ kind = .typeSexpr

/-- Around a type, a type was expected. -/
theorem Node.Kind.awaitsType_resumes {outer inner : Kind} (h : inner.isTypeOnly)
    (ho : outer.holdsTypes) : outer.AwaitsType (outer.resumes inner) := by
  simp only [holdsTypes, Bool.or_eq_true, decide_eq_true_eq] at ho
  by_cases hlist : outer = .typeSexpr
  · exact .inr ⟨by simp [resumes, hlist], hlist⟩
  · exact .inl ⟨by simp [resumes, h, hlist], by simpa [hlist] using ho⟩

/-- Where a type is expected, what is around it goes on with what it expects. -/
theorem Node.Kind.AwaitsType.resumes_eq {outer inner : Kind} {x : Expectation}
    (h : outer.AwaitsType x) (hi : inner.isTypeOnly) : outer.resumes inner = x := by
  rcases h with ⟨rfl, ho⟩ | ⟨rfl, rfl⟩
  · have hne : outer ≠ .typeSexpr := by
      rintro rfl
      simp [holdsValues] at ho
    simp [resumes, hi, hne]
  · simp [resumes]

/-- Around anything else, an item was expected. -/
theorem Node.Kind.resumes_of_not_isTypeOnly {inner : Kind} (h : inner.isTypeOnly = false)
    (outer : Kind) : outer.resumes inner = .item := by
  simp [resumes, h]

/-- The open nodes around one of the kind `inner` have the children that they should have. -/
def Frame.Around (source : String) : (inner : Kind) → List Frame → Prop
  | _, [] => True
  | inner, f :: fs =>
      Stage source f.kind (f.kind.resumes inner) f.children ∧ Around source f.kind fs

namespace Builder

/-- The tree under construction is as it should be when the next token has to be what `x` says. -/
structure Shapely (source : String) (x : Expectation) (b : Builder) : Prop where
  /-- The open node has the children that it should have so far. -/
  top : Stage source b.top.kind x b.top.children
  /-- So have the nodes around it. -/
  outer : Frame.Around source b.top.kind b.outer
  /-- What is finished is shaped. -/
  settled : ∀ n ∈ b.finished, n.Shaped source

/-- The newest child of the open node has come when `x` was expected. -/
structure Took (source : String) (x : Expectation) (n : Node) (b : Builder) : Prop where
  /-- Before it came, the open node had the children that it should have. -/
  top : ∃ others, b.top.children = n :: others ∧ Stage source b.top.kind x others
  /-- So have the nodes around it. -/
  outer : Frame.Around source b.top.kind b.outer
  /-- What is finished is shaped. -/
  settled : ∀ n ∈ b.finished, n.Shaped source

/-- The open node can be closed. -/
structure Complete (source : String) (b : Builder) : Prop where
  /-- It has the children of a closed one. -/
  top : Whole source b.top.kind b.top.children
  /-- The nodes around it have the children that they should have so far. -/
  outer : Frame.Around source b.top.kind b.outer
  /-- What is finished is shaped. -/
  settled : ∀ n ∈ b.finished, n.Shaped source

variable {source : String} {x y : Expectation} {b : Builder} {n : Node}

/-- The next stage is reached with the newest child. -/
theorem Took.shapely {kind : Kind} (h : b.Took source x n) (hk : b.top.kind = kind)
    (hs : ∀ {others}, Stage source kind x others → Stage source kind y (n :: others)) :
    b.Shapely source y := by
  subst hk
  obtain ⟨others, hchildren, hstage⟩ := h.top
  exact ⟨hchildren ▸ hs hstage, h.outer, h.settled⟩

/-- The open node is whole with the newest child. -/
theorem Took.complete {kind : Kind} (h : b.Took source x n) (hk : b.top.kind = kind)
    (hw : ∀ {others}, Stage source kind x others → Whole source kind (n :: others)) :
    b.Complete source := by
  subst hk
  obtain ⟨others, hchildren, hstage⟩ := h.top
  exact ⟨hchildren ▸ hw hstage, h.outer, h.settled⟩

/-- A leaf is taken. -/
theorem Shapely.leaf {kind : Kind} (h : b.Shapely source x) (hk : kind.isBare) (span : Span) :
    (b.leaf kind span).Took source x ⟨b.next, kind, span, []⟩ := by
  refine ⟨⟨_, rfl, h.top⟩, h.outer, fun m hm => ?_⟩
  rcases mem_finished_leaf.mp hm with rfl | hm
  · exact shaped_leaf hk rfl
  · exact h.settled m hm

/-- A node is opened with its first leaf, where what it will be is expected. -/
theorem Shapely.enter_leaf {kind leaf : Kind} {start : Nat} {span : Span} (h : b.Shapely source x)
    (hx : b.top.kind.resumes kind = x) (hl : leaf.isBare)
    (hs : Stage source kind y [⟨b.next + 1, leaf, span, []⟩]) :
    ((b.enter kind start).leaf leaf span).Shapely source y := by
  refine ⟨hs, ⟨hx ▸ h.top, h.outer⟩, fun m hm => ?_⟩
  rcases mem_finished_leaf.mp hm with rfl | hm
  · exact shaped_leaf hl rfl
  · rw [finished, row_enter] at hm
    exact h.settled m hm

/-- A node that is closed is taken by the one around it. -/
theorem Complete.leave {f : Frame} {fs : List Frame} (h : b.Complete source)
    (ho : b.outer = f :: fs) (stop : Nat) :
    (b.leave stop).Took source (f.kind.resumes b.top.kind) (b.top.close stop) := by
  have hleave : b.leave stop = { b with top := f.push (b.top.close stop), outer := fs } := by
    rw [Builder.leave, ho]
  have houter := h.outer
  rw [ho] at houter
  refine ⟨?_, ?_, fun m hm => ?_⟩
  · rw [hleave]
    exact ⟨f.children, rfl, houter.1⟩
  · rw [hleave]
    exact houter.2
  · rcases (mem_finished_leave (by simp [ho]) stop).mp hm with rfl | hm
    · exact h.top.shaped _ _
    · exact h.settled m hm

/-- The node around a closed one is open then. -/
theorem top_kind_leave {f : Frame} {fs : List Frame} (ho : b.outer = f :: fs) (stop : Nat) :
    (b.leave stop).top.kind = f.kind := by
  rw [Builder.leave, ho]
  rfl

/-- The newest child, a value, is taken out again and becomes the first one of an expression. -/
theorem Took.wrap {b' : Builder} (h : b.Took source .item n) (hn : n.kind.isValue)
    (hb : b.wrap? .typedExpr = some b') : b'.Shapely source .colon := by
  have hrow := row_wrap hb
  obtain ⟨others, hchildren, hstage⟩ := h.top
  unfold wrap? at hb
  rw [hchildren] at hb
  cases hb
  refine ⟨.first rfl hn, ⟨?_, h.outer⟩, fun m hm => ?_⟩
  · rw [Kind.resumes_of_not_isTypeOnly rfl]
    exact hstage
  · rw [finished, hrow] at hm
    exact h.settled m hm

end Builder

/-! ## Texts of leaves -/

/-- A leaf has the text of its token. -/
theorem Token.text_leaf {source : String} {t : Token} (ht : t ∈ Token.lex source) (id : Nat)
    (kind : Node.Kind) : Node.text source ⟨id, kind, t.span, []⟩ = t.text := by
  rw [Node.text_of_slice (Token.slice?_of_mem_lex ht), String.ofList_toList]

/-- A token that is a colon has the text of one. -/
theorem Token.text_of_kind_colon {source : String} {t : Token} (ht : t ∈ Token.lex source)
    (hk : t.kind = .colon) : t.text = ":" := by
  rcases List.mem_append.mp ht with ht | ht
  · obtain ⟨a, c, rest, -, -, rfl⟩ := Token.exists_munch_of_mem_scan ht
    have hrule := Token.munch_rule c rest
    rw [show (Token.munch c rest).1 = .colon from hk] at hrule
    generalize (Token.munch c rest).2 = length at hrule
    cases hrule with
    | punctuation hc =>
        unfold Token.punctuation? at hc
        split at hc <;> cases hc
        rfl
  · obtain rfl := List.mem_singleton.mp ht
    cases hk

/-- An atom makes a leaf that is a value. -/
theorem Token.leafKind_of_isAtom {t : Token} (h : t.kind.isAtom) :
    t.leafKind.isBare ∧ t.leafKind.isValue := by
  have hword : (Node.Kind.ofWord t.text).isBare ∧ (Node.Kind.ofWord t.text).isValue := by
    rcases Node.Kind.ofWord_eq t.text with h | h | h <;> rw [h] <;> exact ⟨rfl, rfl⟩
  unfold Token.leafKind
  cases hk : t.kind <;> rw [hk] at h <;> first | exact hword | exact ⟨rfl, rfl⟩ | cases h

/-- A token that opens a list of values makes the opener of the list. -/
theorem Token.leafKind_of_opens? {t : Token} {kind : Node.Kind} (h : t.kind.opens? = some kind) :
    t.leafKind.isBare ∧ kind.isList ∧ kind.isTypeOnly = false ∧
      kind.opener? = some t.leafKind := by
  unfold Token.Kind.opens? at h
  unfold Token.leafKind
  split at h <;> rename_i hk <;> cases h <;> rw [hk] <;> exact ⟨rfl, rfl, rfl, rfl⟩

/-- A token that closes a list of values makes the closer of the list. -/
theorem Token.leafKind_of_closer? {t : Token} {kind : Node.Kind} (h : kind.closer? = some t.kind) :
    t.leafKind.isBare ∧ (kind = .sexpr ∨ kind = .variants) ∧ kind.isList ∧
      kind.ender? = some t.leafKind := by
  unfold Node.Kind.closer? at h
  unfold Token.leafKind
  split at h
  · rw [← Option.some.inj h]
    exact ⟨rfl, .inl rfl, rfl, rfl⟩
  · rw [← Option.some.inj h]
    exact ⟨rfl, .inr rfl, rfl, rfl⟩
  · cases h

/-! ## Moves -/

namespace Reader

variable {source : String} {x : Expectation} {r r' : Reader} {t next : Token} {n : Node}

/-- The tree of the reader is as it should be. -/
def Shapely (source : String) (r : Reader) : Prop := r.builder.Shapely source r.expects

/-- Comments can be placed at any time. -/
theorem Shapely.attach (h : r.Shapely source) : r.attach.Shapely source := by
  show (r.comments.foldr (fun t b => b.leaf .lineComment t.span) r.builder).Shapely source r.expects
  induction r.comments with
  | nil => exact h
  | cons t comments ih => exact (ih.leaf rfl t.span).shapely rfl fun hs => .comment hs rfl

/-- A token becomes the newest child. -/
theorem Shapely.shift (h : r.Shapely source) (hx : r.expects = x) (kind : Kind)
    (hk : kind.isBare) (t : Token) :
    (r.shift kind t).builder.Took source x ⟨r.attach.builder.next, kind, t.span, []⟩ := by
  subst hx
  exact h.attach.leaf hk t.span

/-- A token that is no type becomes an item. -/
theorem Shapely.shift_item {kind : Kind} (h : r.Shapely source) (hx : r.expects = .item)
    (hk : kind.isBare) (hi : r.region.mayHold kind) (ht : kind.isTypeOnly = false) (t : Token) :
    (r.shift kind t).Shapely source := by
  show (r.shift kind t).builder.Shapely source r.expects
  rw [hx]
  refine (h.shift hx kind hk t).shapely (r.shift_region kind t) fun hs =>
    .item hs hi fun htype => ?_
  rw [show kind.isTypeOnly = _ from htype] at ht
  cases ht

/-- A token opens a node, where what it will be is expected. -/
theorem Shapely.enter_shift {kind leaf : Kind} (h : r.Shapely source)
    (hx : r.region.resumes kind = r.expects) (hl : leaf.isBare)
    (hs : ∀ id, Stage source kind x [⟨id, leaf, t.span, []⟩]) :
    ((r.enter kind t).shift leaf t).builder.Shapely source x :=
  Builder.Shapely.enter_leaf h.attach
    (by rw [show r.attach.builder.top.kind = _ from r.attach_region, hx]; rfl) hl (hs _)

/-- Around a node that is not the root there is one that can enclose it. -/
theorem exists_outer (hn : Nested r.frames) (hr : r.region ≠ .program) :
    ∃ f fs, r.builder.outer = f :: fs ∧ f.kind.mayEnclose r.region := by
  obtain ⟨f, fs, houter, henc, -⟩ := hn.exists_cons hr
  exact ⟨f, fs, houter, henc⟩

/-- An expression that can be closed becomes an item. -/
theorem shapely_conclude (hn : Nested r.frames) (hr : r.region = .typedExpr)
    (h : r.builder.Complete source) : r.leave.builder.Shapely source .item := by
  obtain ⟨f, fs, houter, henc⟩ := exists_outer hn (by rw [hr]; simp)
  have htook : Builder.Took source (f.kind.resumes r.region) _ _ := h.leave houter 0
  rw [hr] at henc htook
  rw [Kind.resumes_of_not_isTypeOnly rfl] at htook
  refine htook.shapely (Builder.top_kind_leave houter 0) fun hs =>
    .item hs (Kind.mayHold_of_isValue henc (.inr (.inl hr))) ?_
  show r.region.isTypeOnly → _
  rw [hr]
  exact nofun

/-- A type that has come ends the expression it belongs to, or is an item. -/
theorem shapely_endType (hn : Nested r.frames) (h : r.builder.Took source x n)
    (hx : r.region.AwaitsType x) (hk : n.kind.isType) : r.endType.Shapely source := by
  by_cases hreg : r.region = .typedExpr
  · rw [endType_of_typedExpr hreg]
    refine shapely_conclude hn hreg (h.complete hreg fun hs => ?_)
    rcases hx with ⟨rfl, -⟩ | ⟨-, htype⟩
    · exact .joined hs (x := .colon) rfl hk
    · rw [hreg] at htype
      cases htype
  · rw [endType_of_ne_typedExpr hreg]
    refine h.shapely rfl fun hs => ?_
    rcases hx with ⟨rfl, hv⟩ | ⟨rfl, htype⟩
    · exact .bareType hs (hv.resolve_right hreg) hk
    · exact .item hs (Kind.mayHold_of_isType (.inr htype) (.inl hk)) fun _ => htype

/-- A type that is closed has come. -/
theorem shapely_leave_endType (hn : Nested r.frames)
    (hr : r.region = .typeSexpr ∨ r.region = .typeRange) (h : r.builder.Complete source)
    (stop : Nat) : (r.leaveAt stop).endType.Shapely source := by
  have htype : r.region.isTypeOnly := by rcases hr with hr | hr <;> rw [hr] <;> rfl
  obtain ⟨f, g, gs, hframes, henc, -, hgs⟩ :=
    exists_frames hn (by rcases hr with hr | hr <;> simp [hr])
  have houter : r.builder.outer = g :: gs := (List.cons.inj hframes).2
  have hleave := frames_leaveAt hframes stop
  have hholds : g.kind.holdsTypes := by rcases hr with hr | hr <;> rwa [hr] at henc
  refine shapely_endType (hleave ▸ hgs.push _) (h.leave houter stop) ?_ ?_
  · rw [region_of_frames hleave]
    exact Kind.awaitsType_resumes htype hholds
  · show r.region.isType
    rw [Kind.isType, htype]
    rfl

/-- A list of values that is closed is a value that has come. -/
theorem took_leave_value (hn : Nested r.frames) (hr : r.region = .sexpr ∨ r.region = .variants)
    (h : r.builder.Complete source) (stop : Nat) :
    ∃ n : Node, (r.leaveAt stop).builder.Took source .item n ∧ n.kind.isValue ∧
      (r.leaveAt stop).region.holdsValues := by
  have hvalue : r.region.isValue := by rcases hr with hr | hr <;> rw [hr] <;> rfl
  obtain ⟨f, fs, houter, henc⟩ := exists_outer hn (by rcases hr with hr | hr <;> simp [hr])
  have htook : Builder.Took source (f.kind.resumes r.region) _ _ := h.leave houter stop
  rw [Kind.resumes_of_not_isTypeOnly (Kind.class_of_isValue hvalue).1] at htook
  refine ⟨_, htook, hvalue, ?_⟩
  rw [region, leaveAt, Builder.top_kind_leave houter]
  rcases hr with hr | hr <;> rwa [hr] at henc

/-- A value that has come is an item. -/
theorem shapely_value (h : r.builder.Took source .item n) (hv : r.region.holdsValues)
    (hn : n.kind.isValue) : r.builder.Shapely source .item := by
  refine h.shapely rfl fun hs => .item hs (Kind.mayHold_of_isValue hv (.inl hn)) fun ht => ?_
  rw [(Kind.class_of_isValue hn).1] at ht
  cases ht

/-- A value that has come is an item, or the first part of an expression. -/
theorem shapely_endValue (h : r.builder.Took source .item n) (hx : r.expects = .item)
    (hv : r.region.holdsValues) (hn : n.kind.isValue) : (r.endValue next).Shapely source := by
  by_cases hc : next.kind = .colon
  · obtain ⟨others, hchildren, -⟩ := h.top
    rw [endValue_of_colon hc hchildren]
    refine h.wrap hn ?_
    unfold Builder.wrap?
    rw [hchildren]
  · rw [endValue_of_ne_colon hc]
    show r.builder.Shapely source r.expects
    rw [hx]
    exact shapely_value h hv hn

/-- A list that is broken off is an item, or a type that has come. -/
theorem Shapely.breakOff {wanted : Wanted} (h : r.Shapely source) (hr : r.Ready t)
    (hx : r.expects = .item) (hb : r.region.brokenBy t.kind = some wanted) :
    (r.breakOff wanted t).Shapely source := by
  have hreg := region_of_brokenBy hb
  have hattach : r.attach.builder.Shapely source .item := hx ▸ h.attach
  have hcomplete : r.attach.builder.Complete source := by
    refine ⟨.unclosed hattach.top ?_, hattach.outer, hattach.settled⟩
    show r.attach.region.isList
    rw [attach_region]
    rcases hreg with hreg | hreg | hreg <;> rw [hreg] <;> rfl
  by_cases htype : r.region = .typeSexpr
  · rw [breakOff_of_typeSexpr htype]
    exact @shapely_leave_endType _ (r.attach.report t (.missingBefore wanted t))
      (nested_attach hr.nested) (.inl (r.attach_region.trans htype)) hcomplete t.start
  · rw [breakOff_of_ne_typeSexpr htype]
    have hvalues : r.attach.region = .sexpr ∨ r.attach.region = .variants := by
      rw [attach_region]
      rcases hreg with hreg | hreg | hreg
      · exact .inl hreg
      · exact .inr hreg
      · exact absurd hreg htype
    obtain ⟨n, htook, hvalue, hv⟩ :=
      took_leave_value (nested_attach hr.nested) hvalues hcomplete t.start
    show (r.attach.leaveAt t.start).builder.Shapely source r.expects
    rw [hx]
    exact shapely_value htook hv hvalue

/-- A colon behind a value, or without one, asks for a type. -/
theorem shapely_awaitType (hn : Nested r.frames) (h : r.builder.Took source x n)
    (hx : x = .item ∧ r.region.holdsValues ∧ n.isBareColon source ∨
      x = .colon ∧ r.region = .typedExpr ∧ n.kind = .colon) :
    (r.awaitType next).Shapely source := by
  have hsign : n.kind = .colon → Kind.isSign source .typedExpr n := by
    intro hn
    simp [Kind.isSign, hn]
  by_cases hs : next.kind.startsType
  · rw [awaitType_of_startsType hs]
    rcases hx with ⟨rfl, hv, hcolon⟩ | ⟨rfl, hreg, hcolon⟩
    · exact h.shapely rfl fun hstage => .bareColon hstage hv hcolon
    · exact h.shapely hreg fun hstage => .sign hstage rfl (hsign hcolon)
  · rw [awaitType_of_not_startsType hs]
    rcases hx with ⟨rfl, hv, hcolon⟩ | ⟨rfl, hreg, hcolon⟩
    -- nothing waits for the type behind a bare colon, and the expression has to do without it
    · rw [endType_of_ne_typedExpr (by
        intro hreg
        rw [show r.region = _ from hreg] at hv
        cases hv)]
      exact h.shapely rfl fun hstage => .noType (.bareColon hstage hv hcolon) hv
    · rw [endType_of_typedExpr (by exact hreg)]
      exact @shapely_conclude _ (r.report next _) hn hreg
        (h.complete hreg fun hstage => .lacking hstage rfl (hsign hcolon))

/-! ## Turns -/

/-- What a reader expects that is ready for a type. -/
theorem AwaitsType.awaitsType (h : r.AwaitsType) (hr : r.Ready t) :
    r.region.AwaitsType r.expects := by
  have hdue := hr.due
  rcases h with hx | hx
  · rw [Due, hx] at hdue
    exact .inl ⟨hx, hdue.1⟩
  · exact .inr hx

/-- **A turn keeps the tree shapely.** -/
theorem Turn.shapely (h : Turn t next r r') (hr : r.Ready t) (ht : t ∈ Token.lex source)
    (hs : r.Shapely source) : r'.Shapely source := by
  have hdots : t.isDots → ∀ id,
      Kind.isSign source .typeRange (⟨id, .opalias, t.span, []⟩ : Node) := by
    intro hdots id
    simp only [Token.isDots, Bool.and_eq_true, decide_eq_true_eq] at hdots
    simp [Kind.isSign, Token.text_leaf ht, hdots.2]
  induction h with
  | breakOff hx hb _ ih => exact ih (ready_breakOff hr hx hb).1 (hs.breakOff hr hx hb)
  | finish hx hreg _ => exact hs.attach
  | @divide r hx hdiv =>
      simp only [Kind.isDividedBy, Bool.or_eq_true, Bool.and_eq_true, decide_eq_true_eq] at hdiv
      rcases hdiv with ⟨hreg, hk⟩ | ⟨hreg, hk⟩
      · rw [Token.leafKind, hk]
        exact hs.shift_item hx rfl (Kind.mayHold_of_isValue hreg (.inr (.inr rfl))) rfl t
      · rw [Token.leafKind, hk]
        exact hs.shift_item hx rfl (by rw [hreg]; rfl) rfl t
  | @atom r hx hreg hatom =>
      obtain ⟨hbare, hvalue⟩ := Token.leafKind_of_isAtom hatom
      exact shapely_endValue (hs.shift hx _ hbare t) hx (by rwa [shift_region]) hvalue
  | @openList r kind hx hreg hopens =>
      obtain ⟨hbare, hlist, hvalue, hopener⟩ := Token.leafKind_of_opens? hopens
      show Builder.Shapely source r.expects _
      rw [hx]
      refine hs.enter_shift ?_ hbare fun id => .opener hlist hopener
      rw [Kind.resumes_of_not_isTypeOnly hvalue, hx]
  | @closeList r hx hcloses =>
      obtain ⟨hbare, hvalues, hlist, hender⟩ := Token.leafKind_of_closer? hcloses
      -- with its closer the list is no stage any more: it is closed before it counts as a value
      have hcomplete := (hs.shift hx t.leafKind hbare t).complete (shift_region r _ t)
        fun hstage => .closed hstage hlist hender
      obtain ⟨n, htook, hvalue, hv⟩ := took_leave_value (nested_shift hr.nested t.leafKind t)
        (by rwa [shift_region]) hcomplete 0
      exact shapely_endValue htook hx hv hvalue
  | @stray r problem hx hrej =>
      have hreg : r.region.holdsValues ∨ r.region = .typeSexpr := by
        have hdue := hr.due
        rwa [Due, hx] at hdue
      exact Shapely.shift_item (r := r.report t problem) hs hx rfl
        (Kind.mayHold_of_isType hreg (.inr (.inl rfl))) rfl t
  | @bareColon r hx hreg hcolon =>
      refine @shapely_awaitType _ _ (r.reject t .bareColon) _ _ (nested_shift hr.nested _ _)
        (hs.shift hx .error rfl t) (.inl ⟨rfl, ?_, ?_⟩)
      · rwa [reject, shift_region]
      · simp [isBareColon, Token.text_leaf ht, Token.text_of_kind_colon ht hcolon]
  | @colon r hx hreg hcolon =>
      exact shapely_awaitType (nested_shift hr.nested _ _) (hs.shift hx .colon rfl t)
        (.inr ⟨rfl, by rw [shift_region, hreg], rfl⟩)
  | @typeName r hreg hword =>
      exact shapely_endType (nested_shift hr.nested _ _) (hs.shift rfl _ rfl t)
        (by rw [shift_region]; exact hreg.awaitsType hr) rfl
  | @typeInteger r hreg hint _ =>
      exact shapely_endType (nested_shift hr.nested _ _) (hs.shift rfl _ rfl t)
        (by rw [shift_region]; exact hreg.awaitsType hr) rfl
  | @openTypes r hreg hopen =>
      exact hs.enter_shift ((hreg.awaitsType hr).resumes_eq rfl) rfl fun id => .opener rfl rfl
  | @closeTypes r hx hreg hclose =>
      have hregion : (r.shift .closeParen t).region = .typeSexpr := by rw [shift_region, hreg]
      have htook := hs.shift hx .closeParen rfl t
      exact shapely_leave_endType (nested_shift hr.nested _ _) (.inl hregion)
        (htook.complete hregion fun hstage => .closed hstage rfl rfl) 0
  | @openRange r hreg hint hn =>
      exact hs.enter_shift ((hreg.awaitsType hr).resumes_eq rfl) rfl fun id => .first rfl rfl
  | @dots r hx hreg hd hn =>
      exact (hs.shift hx .opalias rfl t).shapely ((shift_region r _ t).trans hreg) fun hstage =>
        .sign hstage rfl (hdots hd _)
  | @dotsOnly r hx hreg hd hn =>
      have hregion : (r.shift .opalias t).region = .typeRange := by rw [shift_region, hreg]
      have htook := hs.shift hx .opalias rfl t
      exact @shapely_leave_endType _ ((r.shift .opalias t).report next _)
        (nested_shift hr.nested _ _) (.inr hregion)
        (htook.complete hregion fun hstage => .lacking hstage rfl (hdots hd _)) 0
  | @bound r hx hreg hint =>
      have hregion : (r.shift .integer t).region = .typeRange := by rw [shift_region, hreg]
      have htook := hs.shift hx .integer rfl t
      exact shapely_leave_endType (nested_shift hr.nested _ _) (.inr hregion)
        (htook.complete hregion fun hstage => .joined hstage (x := .dots) rfl rfl) 0

end Reader

/-! ## Documents -/

namespace Document

/-- The tree that a reader has at the end of a source is shapely. -/
theorem shapely_reader (source : String) : (reader source).Shapely source := by
  refine of_turns ⟨.root, trivial, fun n hn => absurd hn List.not_mem_nil⟩ (fun h => h) ?_
  intro r r' t next ht hr hturn h
  exact hturn.shapely hr ht h

end Document

end GolfAssist
