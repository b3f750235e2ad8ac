import GolfAssist.Document
import GolfAssist.Proofs.Reader.Rules
import GolfAssist.Proofs.Token.Place
import GolfAssist.Proofs.Tree.Preorder
import Mathlib.Logic.Relation

/-!
# Reading as a sequence of small acts

* `Draft` — how far the reading of a source has come, without what is only of use to the reader: the
  tokens not yet placed, the tree so far and what has been found wrong.
* `Draft.Act` — the nine things that can happen to a draft. Four of them place a token, the others
  only close or wrap nodes and report.
* `Reader.Turn.acts` — every rule of reading is a sequence of acts.
* `Document.reader_acts` — so is the reading of a whole source: it leads from nothing to the tree of
  its document (`Document.tree_eq`), and all tokens are placed but the one that marks the end.

What holds at the start and is kept by every act, holds at the end (`Document.of_acts`). Comments
are no matter of their own here: a draft has them placed as soon as they come, while a reader holds
them back until it knows where they belong. Acts do not say what the reader expects; where that
counts, `Document.of_turns` goes by the rules of reading themselves.
-/

namespace GolfAssist

/-! ## Leaves of tokens -/

/-- The kinds of leaf that a token can become. -/
def Token.leafKinds (t : Token) : List Node.Kind :=
  match t.kind with
  | .lineComment => [.lineComment]
  | .openParen => [.openParen]
  | .semicolon => [.semicolon]
  | .integer => [.integer]
  | .unknown => [.error]
  | .word => [.typeName, .ofWord t.text]
  | .op => [.opalias, .error]
  | .variable => [.variable, .error]
  | .string => [.string, .error]
  | .closeParen => [.closeParen, .error]
  | .openBrace => [.openBrace, .error]
  | .closeBrace => [.closeBrace, .error]
  | .colon => [.colon, .error]
  | .slash => [.slash, .error]
  | .eof => []

/-- Where a value is read, a token becomes one of the leaves it can become. -/
theorem Token.leafKind_mem_leafKinds {t : Token} (h : t.kind ≠ .eof) :
    t.leafKind ∈ t.leafKinds := by
  unfold leafKind leafKinds
  cases hk : t.kind <;> simp_all

/-- A word never becomes a sign or an error. -/
theorem Node.Kind.ofWord_eq (word : String) :
    Node.Kind.ofWord word = .opalias ∨ Node.Kind.ofWord word = .nullary ∨
      Node.Kind.ofWord word = .builtin := by
  unfold ofWord
  split
  · exact .inl rfl
  · split
    · exact .inr (.inl rfl)
    · exact .inr (.inr rfl)

namespace Node.Kind

/-- The leaf that a node of the kind begins with. -/
def opener? : Node.Kind → Option Node.Kind
  | .sexpr | .typeSexpr => some .openParen
  | .variants => some .openBrace
  | .typeRange => some .integer
  | _ => none

/-- The leaf that a complete node of the kind ends with. -/
def ender? : Node.Kind → Option Node.Kind
  | .sexpr | .typeSexpr => some .closeParen
  | .variants => some .closeBrace
  | .typeRange => some .integer
  | _ => none

/-- The leaf that is not the last one in a complete node of the kind. -/
def promise? : Node.Kind → Option Node.Kind
  | .typedExpr => some .colon
  | .typeRange => some .opalias
  | _ => none

end Node.Kind

/-- The kind of the newest child of an open node. -/
def Frame.newest? (f : Frame) : Option Node.Kind := f.children.head?.map (·.kind)

/-! ## Drafts -/

/-- How far the reading of a source has come. -/
structure Draft where
  /-- The tokens not yet placed. -/
  rest : List Token
  /-- The tree so far. -/
  builder : Builder
  /-- What has been found wrong, the newest first. -/
  findings : List Finding

namespace Draft

/-- Nothing of the source has been read. -/
def start (source : String) : Draft :=
  ⟨Token.lex source, .start (Text.byteLength source.toList), []⟩

/-- What can happen to a draft. -/
inductive Act : Draft → Draft → Prop where
  /-- The next token becomes a leaf of the open node. -/
  | place {t : Token} {rest : List Token} {b : Builder} {fs : List Finding} {kind : Node.Kind}
      (hk : kind ∈ t.leafKinds) (hc : kind ≠ .closeParen ∧ kind ≠ .closeBrace)
      (he : kind = .error → t.kind = .unknown) :
      Act ⟨t :: rest, b, fs⟩ ⟨rest, b.leaf kind t.span, fs⟩
  /-- The next token becomes an error and is reported. -/
  | reject {t : Token} {rest : List Token} {b : Builder} {fs : List Finding} {problem : Problem}
      (hk : .error ∈ t.leafKinds) (hp : problem.closer? = none) :
      Act ⟨t :: rest, b, fs⟩ ⟨rest, b.leaf .error t.span, ⟨problem, t.span⟩ :: fs⟩
  /-- The next token opens a node. -/
  | enter {t : Token} {rest : List Token} {b : Builder} {fs : List Finding}
      {kind leaf : Node.Kind} (hl : leaf ∈ t.leafKinds) (hk : kind.opener? = some leaf) :
      Act ⟨t :: rest, b, fs⟩ ⟨rest, (b.enter kind t.start).leaf leaf t.span, fs⟩
  /-- The next token completes the open node. -/
  | complete {t : Token} {rest : List Token} {b : Builder} {fs : List Finding}
      {leaf : Node.Kind} (hl : leaf ∈ t.leafKinds) (hk : b.top.kind.ender? = some leaf)
      (ho : b.outer ≠ []) : Act ⟨t :: rest, b, fs⟩ ⟨rest, (b.leaf leaf t.span).leave 0, fs⟩
  /-- The newest child of the open node, which keeps another child or is the root, becomes the
  expression of a new open node. -/
  | wrap {rest : List Token} {b b' : Builder} {fs : List Finding} {n : Node} {others : List Node}
      (hb : b.wrap? .typedExpr = some b') (hn : b.top.children = n :: others)
      (ho : others ≠ [] ∨ b.outer = []) : Act ⟨rest, b, fs⟩ ⟨rest, b', fs⟩
  /-- An expression has its type. -/
  | conclude {rest : List Token} {b : Builder} {fs : List Finding} (hk : b.top.kind = .typedExpr)
      (hn : b.top.children ≠ []) (hc : b.top.newest? ≠ some .colon) (ho : b.outer ≠ []) :
      Act ⟨rest, b, fs⟩ ⟨rest, b.leave 0, fs⟩
  /-- The open node is closed without what had to follow its newest child. -/
  | forgo {rest : List Token} {b : Builder} {fs : List Finding} {kind : Node.Kind} {next : Token}
      {wanted : Wanted} (hk : b.top.kind.promise? = some kind) (hn : b.top.newest? = some kind)
      (ho : b.outer ≠ []) (hr : rest.find? (!·.isTrivia) = some next)
      (hp : (Problem.missingBefore wanted next).closer? = none) :
      Act ⟨rest, b, fs⟩ ⟨rest, b.leave 0, ⟨.missingBefore wanted next, next.span⟩ :: fs⟩
  /-- The open node is closed in front of a token that cannot belong to it. -/
  | breakOff {t : Token} {rest : List Token} {b : Builder} {fs : List Finding} {wanted : Wanted}
      (hb : b.top.kind.brokenBy t.kind = some wanted) (hn : b.top.children ≠ [])
      (ho : b.outer ≠ []) :
      Act ⟨t :: rest, b, fs⟩
        ⟨t :: rest, b.leave t.start, ⟨.missingBefore wanted t, t.span⟩ :: fs⟩
  /-- After an error, something more is missing. -/
  | complain {rest : List Token} {b : Builder} {fs : List Finding} {next : Token}
      {problem : Problem} (hn : b.top.newest? = some .error)
      (hr : rest.find? (!·.isTrivia) = some next) (hp : problem.closer? = none) :
      Act ⟨rest, b, fs⟩ ⟨rest, b, ⟨problem, next.span⟩ :: fs⟩

/-- What can happen to a draft in any number of acts. -/
def Acts : Draft → Draft → Prop := Relation.ReflTransGen Act

/-- What every act keeps, any number of acts keeps. -/
theorem Acts.keeps {I : Draft → Prop} (step : ∀ {d d'}, Act d d' → I d → I d') {d d' : Draft}
    (h : Acts d d') (hd : I d) : I d' := by
  induction h with
  | refl => exact hd
  | tail _ hact ih => exact step hact ih

/-- No act changes the length of the source. -/
theorem Act.length_builder {d d' : Draft} (h : Act d d') :
    d'.builder.length = d.builder.length := by
  have hleave : ∀ (b : Builder) (stop : Nat), (b.leave stop).length = b.length := by
    intro b stop
    unfold Builder.leave
    split <;> rfl
  cases h with
  | place => rfl
  | reject => rfl
  | enter => rfl
  | complete => exact hleave _ _
  | wrap hb hn _ =>
      unfold Builder.wrap? at hb
      rw [hn] at hb
      cases hb
      rfl
  | conclude => exact hleave _ _
  | forgo => exact hleave _ _
  | breakOff => exact hleave _ _
  | complain => rfl

/-- No act touches the tokens that are left, except that it places the first one. -/
theorem Act.suffix {d d' : Draft} (h : Act d d') : d'.rest <:+ d.rest := by
  cases h with
  | place => exact List.suffix_cons _ _
  | reject => exact List.suffix_cons _ _
  | enter => exact List.suffix_cons _ _
  | complete => exact List.suffix_cons _ _
  | wrap => exact List.suffix_refl _
  | conclude => exact List.suffix_refl _
  | forgo => exact List.suffix_refl _
  | breakOff => exact List.suffix_refl _
  | complain => exact List.suffix_refl _

end Draft

namespace Reader

open Draft

variable {r r' : Reader} {t next : Token} {rest : List Token}

/-- The draft of a reader, with the comments placed that it holds back. -/
def draft (r : Reader) (rest : List Token) : Draft := ⟨rest, r.attach.builder, r.findings⟩

/-- Without comments, the draft has the tree of the reader. -/
theorem draft_of_comments_nil (h : r.comments = []) :
    r.draft rest = ⟨rest, r.builder, r.findings⟩ := by
  unfold draft attach
  rw [h]
  rfl

/-- An act between the trees and findings of readers is one between their drafts. -/
theorem acts_of_comments_nil (h : r.comments = []) (h' : r'.comments = [])
    (hact : Act ⟨rest, r.builder, r.findings⟩ ⟨rest, r'.builder, r'.findings⟩) :
    Acts (r.draft rest) (r'.draft rest) := by
  rw [draft_of_comments_nil h, draft_of_comments_nil h']
  exact .single hact

/-! ## Turns as acts -/

/-- A comment is placed at once in the draft. -/
theorem hold_acts (hc : t.isTrivia) : Acts (r.draft (t :: rest)) ((r.hold t).draft rest) := by
  have hk : t.kind = .lineComment := by simpa [Token.isTrivia] using hc
  exact .single (.place (by simp [Token.leafKinds, hk]) (by simp) (by simp))

/-- A value that ends is wrapped or stays as it is. -/
theorem endValue_acts {f : Frame} {n : Node} {fs : List Frame} (hc : r.comments = [])
    (hr : r.frames = f.push n :: fs) (hn : Nested (f :: fs)) :
    Acts (r.draft rest) ((r.endValue next).draft rest) := by
  by_cases hcolon : next.kind = .colon
  · obtain ⟨htop, houter⟩ := List.cons.inj hr
    have hchildren : r.builder.top.children = n :: f.children := congrArg Frame.children htop
    have hroom : f.children ≠ [] ∨ r.builder.outer = [] := by
      rw [houter]
      cases fs with
      | nil => exact .inr rfl
      | cons g gs => exact .inl hn.2.1
    rw [endValue_of_colon hcolon hchildren]
    refine acts_of_comments_nil hc hc (.wrap ?_ hchildren hroom)
    unfold Builder.wrap?
    rw [hchildren]
  · rw [endValue_of_ne_colon hcolon]
    exact .refl

/-- A type that ends completes the expression it belongs to, or belongs to none. -/
theorem endType_acts {n : Node} {others : List Node} (hc : r.comments = [])
    (hn : Nested r.frames) (hr : r.builder.top.children = n :: others) (hk : n.kind ≠ .colon) :
    Acts (r.draft rest) (r.endType.draft rest) := by
  by_cases hreg : r.region = .typedExpr
  · obtain ⟨g, gs, houter, -⟩ :=
      hn.exists_cons (by rw [show r.builder.top.kind = _ from hreg]; simp)
    rw [endType_of_typedExpr hreg]
    refine acts_of_comments_nil hc hc (.conclude hreg ?_ ?_ ?_)
    · rw [hr]
      exact List.cons_ne_nil _ _
    · rw [Frame.newest?, hr]
      simpa using hk
    · rw [houter]
      exact List.cons_ne_nil _ _
  · rw [endType_of_ne_typedExpr hreg]
    exact .refl

/-- The tokens that are left when a token has been read. The one that marks the end is never
used up. -/
def left (t : Token) (rest : List Token) : List Token := if t.kind = .eof then t :: rest else rest

/-- Any other token is used up. -/
theorem left_of_ne_eof (h : t.kind ≠ .eof) : left t rest = rest := if_neg h

/-- A turn that only needs a leaf places it. -/
theorem shift_acts {kind : Node.Kind} (hk : kind ∈ t.leafKinds)
    (hc : kind ≠ .closeParen ∧ kind ≠ .closeBrace) (he : kind = .error → t.kind = .unknown) :
    Acts (r.draft (t :: rest)) ((r.shift kind t).draft rest) :=
  .single (.place hk hc he)

/-- A token that is rejected becomes an error. -/
theorem reject_acts {problem : Problem} (hk : .error ∈ t.leafKinds)
    (hp : problem.closer? = none) :
    Acts (r.draft (t :: rest)) ((r.reject t problem).draft rest) :=
  .single (.reject hk hp)

/-- A node that its last leaf completes is closed. -/
theorem shift_leave_acts {leaf : Node.Kind} (hn : Nested r.frames) (hl : leaf ∈ t.leafKinds)
    (hk : r.region.ender? = some leaf) :
    Acts (r.draft (t :: rest)) ((r.shift leaf t).leave.draft rest) := by
  refine .single (.complete hl ?_ ?_)
  · rwa [← attach_region] at hk
  · obtain ⟨g, gs, houter, -⟩ := (nested_attach hn).exists_cons (by
      rw [show r.attach.builder.top.kind = r.region from r.attach_region]
      intro h
      rw [h] at hk
      cases hk)
    rw [houter]
    exact List.cons_ne_nil _ _

/-- The newest child of a node that has been left is the node that was closed in it. -/
theorem children_leave (hn : Nested r.frames) (hr : r.region ≠ .program) :
    ∃ n others, r.leave.builder.top.children = n :: others ∧ n.kind = r.region := by
  obtain ⟨f, g, gs, hframes, -⟩ := exists_frames hn hr
  have hleave := frames_leaveAt hframes 0
  refine ⟨f.close 0, g.children, congrArg Frame.children (List.cons.inj hleave).1, ?_⟩
  rw [region_of_frames hframes]
  rfl

/-- A type that is completed by its last leaf ends. -/
theorem shift_leave_endType_acts {leaf : Node.Kind} (hn : Nested r.frames)
    (hl : leaf ∈ t.leafKinds) (hr : r.region = .typeSexpr ∨ r.region = .typeRange)
    (hk : r.region.ender? = some leaf) :
    Acts (r.draft (t :: rest)) ((r.shift leaf t).leave.endType.draft rest) := by
  have hne : (r.shift leaf t).region ≠ .program := by rcases hr with hr | hr <;> simp [hr]
  obtain ⟨n, others, hchildren, hkind⟩ := children_leave (nested_shift hn leaf t) hne
  obtain ⟨g, gs, m, hleave, -, hgs⟩ := frames_leave (nested_shift hn leaf t) hne
  refine (shift_leave_acts hn hl hk).trans (endType_acts rfl (hleave ▸ hgs.push m) hchildren ?_)
  rw [hkind, shift_region]
  rcases hr with hr | hr <;> simp [hr]

/-- A colon without a type after it is reported, and the expression it follows is closed. -/
theorem awaitType_acts {n : Node} {others : List Node} (hc : r.comments = [])
    (hn : Nested r.frames) (hr : r.builder.top.children = n :: others)
    (hk : n.kind = .error ∧ r.region.holdsValues ∨ n.kind = .colon ∧ r.region = .typedExpr)
    (hnext : rest.find? (!·.isTrivia) = some next) :
    Acts (r.draft rest) ((r.awaitType next).draft rest) := by
  by_cases hs : next.kind.startsType
  · rw [awaitType_of_startsType hs]
    exact .refl
  · rw [awaitType_of_not_startsType hs]
    have hnewest : r.builder.top.newest? = some n.kind := by
      rw [Frame.newest?, hr]
      rfl
    rcases hk with ⟨hk, hreg⟩ | ⟨hk, hreg⟩
    · have hne : r.region ≠ .typedExpr := by
        intro h
        rw [h] at hreg
        cases hreg
      rw [endType_of_ne_typedExpr (by exact hne)]
      exact acts_of_comments_nil hc hc (.complain (hk ▸ hnewest) hnext rfl)
    · obtain ⟨g, gs, houter, -⟩ :=
        hn.exists_cons (by rw [show r.builder.top.kind = _ from hreg]; simp)
      rw [endType_of_typedExpr (by exact hreg)]
      refine acts_of_comments_nil hc hc (.forgo ?_ (hk ▸ hnewest) ?_ hnext rfl)
      · rw [show r.builder.top.kind = _ from hreg]
        rfl
      · rw [houter]
        exact List.cons_ne_nil _ _

/-- **A turn is a sequence of acts.** It places its token, if that does not mark the end. -/
theorem Turn.acts (h : Turn t next r r') (hr : r.Ready t)
    (hnext : t.kind ≠ .eof → rest.find? (!·.isTrivia) = some next) :
    Acts (r.draft (t :: rest)) (r'.draft (left t rest)) := by
  induction h with
  | @breakOff r r' wanted hx hb _ ih =>
      refine Relation.ReflTransGen.trans ?_ (ih (ready_breakOff hr hx hb).1)
      obtain ⟨f, g, gs, hframes, -, hne, hgs⟩ := exists_frames (nested_attach hr.nested) (by
        rw [attach_region]
        rcases region_of_brokenBy hb with h | h | h <;> simp [h])
      obtain ⟨htop, houter⟩ := List.cons.inj hframes
      have hact : Acts (r.draft (t :: rest))
          (((r.attach.report t (.missingBefore wanted t)).leaveAt t.start).draft (t :: rest)) := by
        refine .single (.breakOff ?_ (htop ▸ hne) (by rw [houter]; exact List.cons_ne_nil _ _))
        rwa [← attach_region] at hb
      by_cases htype : r.region = .typeSexpr
      · rw [breakOff_of_typeSexpr htype]
        have hleave := frames_leaveAt hframes t.start
        refine hact.trans (endType_acts rfl ?_
          (congrArg Frame.children (List.cons.inj hleave).1) ?_)
        · exact hleave ▸ hgs.push _
        · show f.kind ≠ .colon
          rw [← region_of_frames hframes, attach_region, htype]
          simp
      · rw [breakOff_of_ne_typeSexpr htype]
        exact hact
  | finish hx hreg ht =>
      rw [left, if_pos ht]
      exact .refl
  | @divide r hx ht =>
      have hk : t.kind = .semicolon ∨ t.kind = .slash := by
        simp only [Node.Kind.isDividedBy, Bool.or_eq_true, Bool.and_eq_true,
          decide_eq_true_eq] at ht
        rcases ht with ht | ht
        · exact .inl ht.2
        · exact .inr ht.2
      have hne : t.kind ≠ .eof := by rcases hk with hk | hk <;> simp [hk]
      rw [left_of_ne_eof hne]
      refine shift_acts (Token.leafKind_mem_leafKinds hne) ?_ ?_
      · rcases hk with hk | hk <;> simp [Token.leafKind, hk]
      · rcases hk with hk | hk <;> simp [Token.leafKind, hk]
  | @atom r hx hreg ht =>
      have hne : t.kind ≠ .eof := by
        intro h
        rw [h] at ht
        cases ht
      have hword := Node.Kind.ofWord_eq t.text
      rw [left_of_ne_eof hne]
      refine (shift_acts (Token.leafKind_mem_leafKinds hne) ?_ ?_).trans
        (endValue_acts rfl (frames_shift r _ t) (nested_attach hr.nested))
      · cases hk : t.kind <;> simp_all [Token.leafKind, Token.Kind.isAtom]
        rcases hword with h | h | h <;> simp [h]
      · cases hk : t.kind <;> simp_all [Token.leafKind, Token.Kind.isAtom]
        rcases hword with h | h | h <;> simp [h]
  | @openList r kind hx hreg ht =>
      have hne : t.kind ≠ .eof := by
        intro h
        rw [h] at ht
        cases ht
      rw [left_of_ne_eof hne]
      refine .single (.enter (Token.leafKind_mem_leafKinds hne) ?_)
      cases hk : t.kind <;> simp_all [Token.Kind.opens?, Token.leafKind] <;> rw [← ht] <;> rfl
  | @closeList r hx ht =>
      have hk : r.region = .sexpr ∧ t.kind = .closeParen ∨
          r.region = .variants ∧ t.kind = .closeBrace := by
        unfold Node.Kind.closer? at ht
        split at ht <;> simp_all
      have hne : t.kind ≠ .eof := by rcases hk with hk | hk <;> simp [hk.2]
      obtain ⟨g, gs, n, hleave, -, hgs⟩ := frames_leave (nested_shift hr.nested t.leafKind t)
        (by rcases hk with hk | hk <;> simp [hk.1])
      rw [left_of_ne_eof hne]
      refine (shift_leave_acts hr.nested (Token.leafKind_mem_leafKinds hne) ?_).trans
        (endValue_acts rfl hleave hgs)
      rcases hk with hk | hk <;> simp [hk, Token.leafKind, Node.Kind.ender?]
  | @stray r problem hx ht hp =>
      have hk : t.kind ≠ .eof ∧ .error ∈ t.leafKinds := by
        unfold Node.Kind.rejects at ht
        split at ht <;> simp_all [Token.leafKinds]
      rw [left_of_ne_eof hk.1]
      exact reject_acts hk.2 (hp ▸ Node.Kind.closer?_objection _ _)
  | @bareColon r hx hreg ht =>
      have hne : t.kind ≠ .eof := by simp [ht]
      have hn : Nested (r.reject t .bareColon).frames := (nested_attach hr.nested).push _
      rw [left_of_ne_eof hne]
      refine (reject_acts (by simp [Token.leafKinds, ht]) rfl).trans
        (awaitType_acts rfl hn rfl (.inl ⟨rfl, ?_⟩) (hnext hne))
      rw [reject, shift_region]
      exact hreg
  | @colon r hx hreg ht =>
      have hne : t.kind ≠ .eof := by simp [ht]
      rw [left_of_ne_eof hne]
      exact (shift_acts (by simp [Token.leafKinds, ht]) (by simp) (by simp)).trans
        (awaitType_acts rfl (nested_shift hr.nested _ _) rfl
          (.inr ⟨rfl, by rw [shift_region, hreg]⟩) (hnext hne))
  | @typeName r hreg ht =>
      rw [left_of_ne_eof (by simp [ht])]
      exact (shift_acts (by simp [Token.leafKinds, ht]) (by simp) (by simp)).trans
        (endType_acts rfl (nested_shift hr.nested _ _) rfl (by simp))
  | @typeInteger r hreg ht _ =>
      rw [left_of_ne_eof (by simp [ht])]
      exact (shift_acts (by simp [Token.leafKinds, ht]) (by simp) (by simp)).trans
        (endType_acts rfl (nested_shift hr.nested _ _) rfl (by simp))
  | @openTypes r hreg ht =>
      rw [left_of_ne_eof (by simp [ht])]
      exact .single (.enter (by simp [Token.leafKinds, ht]) rfl)
  | @closeTypes r hx hreg ht =>
      rw [left_of_ne_eof (by simp [ht])]
      exact shift_leave_endType_acts hr.nested (by simp [Token.leafKinds, ht]) (.inl hreg)
        (by rw [hreg]; rfl)
  | @openRange r hreg ht _ =>
      rw [left_of_ne_eof (by simp [ht])]
      exact .single (.enter (by simp [Token.leafKinds, ht]) rfl)
  | @dots r hx hreg ht _ =>
      have hk : t.kind = .op := by simp_all [Token.isDots]
      rw [left_of_ne_eof (by simp [hk])]
      exact .single (.place (by simp [Token.leafKinds, hk]) (by simp) (by simp))
  | @dotsOnly r hx hreg ht _ =>
      have hk : t.kind = .op := by simp_all [Token.isDots]
      have hne : t.kind ≠ .eof := by simp [hk]
      have hreg' : (r.shift .opalias t).region = .typeRange := by rw [shift_region, hreg]
      have hns := nested_shift hr.nested .opalias t
      obtain ⟨n, others, hchildren, hkind⟩ := children_leave hns (by simp [hreg'])
      obtain ⟨g, gs, m, hleave, -, hgs⟩ := frames_leave hns (by simp [hreg'])
      obtain ⟨g', gs', houter, -⟩ :=
        hns.exists_cons (by rw [show Frame.kind _ = _ from hreg']; simp)
      rw [left_of_ne_eof hne]
      refine (shift_acts (by simp [Token.leafKinds, hk]) (by simp) (by simp)).trans
        (Relation.ReflTransGen.trans (acts_of_comments_nil rfl rfl
          (.forgo ?_ rfl (by rw [houter]; exact List.cons_ne_nil _ _) (hnext hne) rfl))
          (endType_acts rfl (hleave ▸ hgs.push m) hchildren ?_))
      · rw [show Frame.kind _ = _ from hreg']
        rfl
      · rw [hkind, hreg']
        simp
  | @bound r hx hreg ht =>
      rw [left_of_ne_eof (by simp [ht])]
      exact shift_leave_endType_acts hr.nested (by simp [Token.leafKinds, ht]) (.inr hreg)
        (by rw [hreg]; rfl)

/-! ## Whole readings -/

/-- The end of the source breaks off the open lists, one after the other, and then ends the root. -/
theorem Turn.eof_induction {P : Reader → Prop} (h : Turn t next r r') (ht : t.kind = .eof)
    (finish : ∀ {r}, r.expects = .item → r.region = .program → r' = r.attach → P r)
    (breakOff : ∀ {r wanted}, r.expects = .item → r.region.brokenBy t.kind = some wanted →
      P (r.breakOff wanted t) → P r) : P r := by
  induction h with
  | breakOff hx hb _ ih => exact breakOff hx hb (ih finish)
  | finish hx hreg _ => exact finish hx hreg rfl
  | divide _ h => simp [ht, Node.Kind.isDividedBy] at h
  | atom _ _ h => simp [ht, Token.Kind.isAtom] at h
  | openList _ _ h => simp [ht, Token.Kind.opens?] at h
  | closeList _ h =>
      unfold Node.Kind.closer? at h
      split at h <;> simp_all
  | stray _ h =>
      unfold Node.Kind.rejects at h
      split at h <;> simp_all
  | bareColon _ _ h => simp [ht] at h
  | colon _ _ h => simp [ht] at h
  | typeName _ h => simp [ht] at h
  | typeInteger _ h _ => simp [ht] at h
  | openTypes _ h => simp [ht] at h
  | closeTypes _ _ h => simp [ht] at h
  | openRange _ h _ => simp [ht] at h
  | dots _ _ h _ => simp [ht, Token.isDots] at h
  | dotsOnly _ _ h _ => simp [ht, Token.isDots] at h
  | bound _ _ h => simp [ht] at h

/-- At the end of the source only the root is open, no comment waits, and nothing but items is
expected. -/
theorem Turn.region_of_eof (h : Turn t next r r') (ht : t.kind = .eof) :
    r'.region = .program ∧ r'.comments = [] ∧ r'.expects = .item := by
  refine h.eof_induction
    (P := fun _ => r'.region = .program ∧ r'.comments = [] ∧ r'.expects = .item) ht ?_ ?_
  · rintro r hx hreg rfl
    exact ⟨by rw [attach_region, hreg], rfl, hx⟩
  · intro r wanted _ _ ih
    exact ih

/-- The end of the source is no comment. -/
theorem isTrivia_of_eof (h : t.kind = .eof) : t.isTrivia = false := by simp [Token.isTrivia, h]

/-- In a list that ends with `last`, the next token that is no comment is one of the list. -/
theorem find?_eq_upcoming {last : Token} (h : last.kind = .eof) (body : List Token) :
    (body ++ [last]).find? (!·.isTrivia) = some (upcoming last (body ++ [last])) := by
  obtain ⟨next, hnext⟩ : ∃ next, (body ++ [last]).find? (!·.isTrivia) = some next := by
    refine Option.isSome_iff_exists.mp (List.find?_isSome.mpr ⟨last, by simp, ?_⟩)
    simp [isTrivia_of_eof h]
  rw [upcoming, hnext]
  rfl

/-- A comment is passed over in the search for the next token. -/
theorem upcoming_of_isTrivia {last : Token} (h : t.isTrivia) :
    upcoming last (t :: rest) = upcoming last rest := by
  unfold upcoming
  rw [List.find?_cons_of_neg (by simp [h])]

/-- A token that is no comment is the next one. -/
theorem upcoming_of_not_isTrivia {last : Token} (h : t.isTrivia = false) :
    upcoming last (t :: rest) = t := by
  unfold upcoming
  rw [List.find?_cons_of_pos (by simp [h])]
  rfl

/-- A reader is ready for its first token. -/
theorem ready_start (length : Nat) (t : Token) : (start length).Ready t :=
  ⟨⟨rfl, rfl, rfl⟩, .inl rfl⟩

/-- **Reading up to the end.** What is kept when a comment is held back, and by every turn of a
reader that is ready for its token, holds at the end, where the root alone is open, no comment
waits and nothing but items is expected. -/
theorem read_keeps {I : List Token → Reader → Prop} {last : Token} (hlast : last.kind = .eof)
    (hold : ∀ {r t rest}, t.isTrivia → I (t :: rest) r → I rest (r.hold t))
    (turn : ∀ {r r' t next rest}, r.Ready t → Turn t next r r' →
      (t.kind ≠ .eof → rest.find? (!·.isTrivia) = some next) → I (t :: rest) r → I (left t rest) r')
    (body : List Token) (hbody : ∀ t ∈ body, t.kind ≠ .eof)
    (hr : r.Ready (upcoming last (body ++ [last]))) (h : I (body ++ [last]) r) :
    I [last] (read last r (body ++ [last])) ∧ Nested (read last r (body ++ [last])).frames ∧
      (read last r (body ++ [last])).region = .program ∧
      (read last r (body ++ [last])).comments = [] ∧
      (read last r (body ++ [last])).expects = .item := by
  induction body generalizing r with
  | nil =>
      rw [List.nil_append, upcoming_of_not_isTrivia (isTrivia_of_eof hlast)] at hr
      have hturn : Turn last last r (r.step last last) := step_turn hr (isTrivia_of_eof hlast)
      have hfinal := turn hr hturn (fun hne => absurd hlast hne) h
      rw [left, if_pos hlast] at hfinal
      exact ⟨hfinal, (hturn.ready hr).nested, hturn.region_of_eof hlast⟩
  | cons t body ih =>
      have hrest : ∀ u ∈ body, u.kind ≠ .eof := fun u hu => hbody u (List.mem_cons_of_mem _ hu)
      rw [List.cons_append] at hr h ⊢
      rw [read]
      by_cases hc : t.isTrivia
      · rw [upcoming_of_isTrivia hc] at hr
        have hstep : r.step t (upcoming last (body ++ [last])) = r.hold t := if_pos hc
        rw [hstep]
        exact ih hrest ⟨hr.nested, hr.due⟩ (hold hc h)
      · have hc : t.isTrivia = false := by simpa using hc
        have ht : t.kind ≠ .eof := hbody t List.mem_cons_self
        rw [upcoming_of_not_isTrivia hc] at hr
        have hturn : Turn t (upcoming last (body ++ [last])) r _ := step_turn hr hc
        have hhead := turn hr hturn (fun _ => find?_eq_upcoming hlast body) h
        rw [left_of_ne_eof ht] at hhead
        exact ih hrest (hturn.ready hr) hhead

/-- **Reading up to the end is a sequence of acts.** It leaves the root alone open. -/
theorem read_acts {last : Token} (hlast : last.kind = .eof) (body : List Token)
    (hbody : ∀ t ∈ body, t.kind ≠ .eof) (hr : r.Ready (upcoming last (body ++ [last]))) :
    Acts (r.draft (body ++ [last]))
        ⟨[last], (read last r (body ++ [last])).builder, (read last r (body ++ [last])).findings⟩ ∧
      Nested (read last r (body ++ [last])).frames ∧
      (read last r (body ++ [last])).region = .program := by
  obtain ⟨hacts, hnested, hreg, hcomments, -⟩ :=
    read_keeps (I := fun rest r' => Acts (r.draft (body ++ [last])) (r'.draft rest)) hlast
      (fun hc h => h.trans (hold_acts hc)) (fun hr hturn hnext h => h.trans (hturn.acts hr hnext))
      body hbody hr .refl
  rw [draft_of_comments_nil hcomments] at hacts
  exact ⟨hacts, hnested, hreg⟩

end Reader

namespace Document

open Draft

/-- The reader at the end of the source. -/
def reader (source : String) : Reader :=
  .read (.ending (Text.byteLength source.toList)) (.start (Text.byteLength source.toList))
    (Token.lex source)

/-- **The reading of a source.** A sequence of acts leads from nothing to the reader at the end of
the source, which has nothing open but the root. -/
theorem reader_acts (source : String) :
    Acts (Draft.start source) ⟨[.ending (Text.byteLength source.toList)],
        (reader source).builder, (reader source).findings⟩ ∧
      Nested (reader source).frames ∧ (reader source).region = .program := by
  refine Reader.read_acts rfl (Token.scan 0 0 source.toList) ?_ (Reader.ready_start _ _)
  intro t ht
  exact Token.kind_ne_eof_of_mem_scan ht

/-- At the end of the source, all that is finished hangs below the root. -/
theorem row_reader (source : String) :
    (reader source).builder.row = (reader source).builder.top.children.reverse := by
  obtain ⟨-, hnested, hreg⟩ := reader_acts source
  unfold Builder.row Builder.before
  rw [hnested.eq_nil_of_program hreg]
  rfl

/-- The tree has the root and all that is finished at the end of the source. -/
theorem tree_eq (source : String) :
    (read source).tree =
      ⟨0, .program, ⟨0, Text.byteLength source.toList⟩, (reader source).builder.row⟩ := by
  obtain ⟨hacts, hnested, hreg⟩ := reader_acts source
  have houter := hnested.eq_nil_of_program hreg
  have hlength := hacts.keeps
    (fun {d d'} h (hd : d.builder.length = Text.byteLength source.toList) =>
      h.length_builder.trans hd) rfl
  rw [Reader.frames, houter] at hnested
  obtain ⟨hid, hkind, hstart⟩ := hnested
  show Builder.closeAll (reader source).builder.length (reader source).builder.top
    (reader source).builder.outer = _
  rw [row_reader, houter, Builder.closeAll, hid, hkind, hstart, hlength]

/-- What holds of nothing read and is kept by every act in front of the last tokens of the source,
holds of the reading of the source. -/
theorem of_acts {source : String} {I : Draft → Prop} (start : I (Draft.start source))
    (step : ∀ {d d'}, d.rest <:+ Token.lex source → Act d d' → I d → I d') :
    I ⟨[.ending (Text.byteLength source.toList)], (reader source).builder,
      (reader source).findings⟩ := by
  have hkeeps := (reader_acts source).1.keeps (I := fun d => d.rest <:+ Token.lex source ∧ I d)
    (fun h hd => ⟨h.suffix.trans hd.1, step hd.1 h hd.2⟩) ⟨List.suffix_refl _, start⟩
  exact hkeeps.2

/-- What holds of a reader at the start, does not depend on the comments it holds back and is kept
by every turn, holds at the end of the source. -/
theorem of_turns {source : String} {I : Reader → Prop}
    (start : I (.start (Text.byteLength source.toList))) (hold : ∀ {r t}, I r → I (r.hold t))
    (turn : ∀ {r r' t next}, t ∈ Token.lex source → r.Ready t → Reader.Turn t next r r' →
      I r → I r') :
    I (reader source) := by
  have hkeeps := @Reader.read_keeps (.start (Text.byteLength source.toList))
    (fun rest r => rest <:+ Token.lex source ∧ I r) (.ending (Text.byteLength source.toList)) rfl
    (fun _ h => ⟨(List.suffix_cons _ _).trans h.1, hold h.2⟩) ?_ (Token.scan 0 0 source.toList)
    (fun t ht => Token.kind_ne_eof_of_mem_scan ht) (Reader.ready_start _ _)
    ⟨List.suffix_refl _, start⟩
  · exact hkeeps.1.2
  · rintro r r' t next rest hr hturn - ⟨hsuffix, h⟩
    refine ⟨?_, turn (hsuffix.subset List.mem_cons_self) hr hturn h⟩
    unfold Reader.left
    split
    · exact hsuffix
    · exact (List.suffix_cons _ _).trans hsuffix

/-- The root of a tree is the program. -/
theorem kind_tree (source : String) : (read source).tree.kind = .program := by
  rw [tree_eq]

end Document

end GolfAssist
