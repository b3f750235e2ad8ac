import GolfAssist.Proofs.Reader.Draft
import Mathlib.Data.List.Forall2

/-!
# Reading in tandem

* `Tandem` — a relation between trees under construction, with relations between tokens and between
  findings, that is kept by each move of a builder that a reader makes.
* `Reader.Paired` — two readers that are related in this way.
* `Reader.Paired.step`, `Reader.Paired.read` — tokens that go together keep them related, one by one
  and all together.

What two readings have in common is a matter of what is asked of offsets, texts and numbers. That
both make the same moves is not: a reader decides by the sorts of tokens, by the texts of words and
of signs, and by the kinds of open nodes. So the moves are gone through here, and whoever compares
two readings only says what each move does to what is compared.
-/

namespace GolfAssist

/-- What a reader can have to say about a token. -/
inductive Complaint where
  /-- It is a slash inside parentheses. -/
  | slash
  /-- It is a colon without an expression in front of it. -/
  | colon
  /-- It closes or divides where nothing is open. -/
  | stray
  /-- Something is missing in front of it. -/
  | missing (wanted : Wanted)

/-- The problem that the complaint makes of a token. -/
def Complaint.problem (t : Token) : Complaint → Problem
  | .slash => .slashOutsideBraces
  | .colon => .bareColon
  | .stray => .stray t.text
  | .missing wanted => .missingBefore wanted t

/-- What goes together in two readings, and stays together whatever a reader does. -/
structure Tandem where
  /-- Tokens that go together. -/
  token : Token → Token → Prop
  /-- Trees under construction that go together. -/
  builder : Builder → Builder → Prop
  /-- Findings that go together. -/
  finding : Finding → Finding → Prop
  /-- Tokens that go together are of one sort. -/
  kind_eq {t t' : Token} : token t t' → t'.kind = t.kind
  /-- Where a reader looks at the texts of tokens, these are the same. -/
  text_eq {t t' : Token} : token t t' → t.kind = .word ∨ t.kind = .op → t'.text = t.text
  /-- The same complaint about tokens that go together is made of both. -/
  complain {t t' : Token} (c : Complaint) :
    token t t' → finding ⟨c.problem t, t.span⟩ ⟨c.problem t', t'.span⟩
  /-- Nodes of one kind are open. -/
  region_eq {b b' : Builder} : builder b b' → b'.top.kind = b.top.kind
  /-- As many nodes are open. -/
  depth_eq {b b' : Builder} : builder b b' → b'.outer.length = b.outer.length
  /-- Both get a leaf. -/
  leaf {b b' : Builder} {t t' : Token} (kind : Node.Kind) :
    builder b b' → token t t' → builder (b.leaf kind t.span) (b'.leaf kind t'.span)
  /-- Both get a new open node. -/
  enter {b b' : Builder} {t t' : Token} (kind : Node.Kind) :
    builder b b' → token t t' → builder (b.enter kind t.start) (b'.enter kind t'.start)
  /-- In both a node is closed where its children end. -/
  leave {b b' : Builder} : builder b b' → builder (b.leave 0) (b'.leave 0)
  /-- In both a node is closed in front of a token. -/
  leaveAt {b b' : Builder} {t t' : Token} :
    builder b b' → token t t' → builder (b.leave t.start) (b'.leave t'.start)
  /-- Where the open node has a child, the newest one is wrapped in both. -/
  wrap {b b' : Builder} : builder b b' → b.top.children ≠ [] →
    Option.Rel builder (b.wrap? .typedExpr) (b'.wrap? .typedExpr)

namespace Tandem

variable {m : Tandem} {t t' : Token}

theorem isTrivia_eq (h : m.token t t') : t'.isTrivia = t.isTrivia := by
  rw [Token.isTrivia, Token.isTrivia, m.kind_eq h]

theorem isDots_eq (h : m.token t t') : t'.isDots = t.isDots := by
  unfold Token.isDots
  rw [m.kind_eq h]
  by_cases hk : t.kind = .op
  · rw [m.text_eq h (.inr hk)]
  · simp [hk]

/-- Tokens that go together make leaves of one kind. -/
theorem leafKind_eq (h : m.token t t') : t'.leafKind = t.leafKind := by
  unfold Token.leafKind
  rw [m.kind_eq h]
  split
  case h_4 hk => rw [m.text_eq h (.inl hk)]
  all_goals rfl

/-- The next tokens that are no comments go together. -/
theorem upcoming {last last' : Token} {ts ts' : List Token} (hlast : m.token last last')
    (hts : List.Forall₂ m.token ts ts') :
    m.token (Reader.upcoming last ts) (Reader.upcoming last' ts') := by
  induction hts with
  | nil => exact hlast
  | @cons t t' ts ts' ht _ ih =>
      have htrivia := isTrivia_eq ht
      by_cases hc : t.isTrivia
      · rw [Reader.upcoming_of_isTrivia hc, Reader.upcoming_of_isTrivia (htrivia.trans hc)]
        exact ih
      · have hc : t.isTrivia = false := by simpa using hc
        rw [Reader.upcoming_of_not_isTrivia hc,
          Reader.upcoming_of_not_isTrivia (htrivia.trans hc)]
        exact ht

end Tandem

/-- The readers have come equally far, and what they have made of it goes together. -/
structure Reader.Paired (m : Tandem) (r r' : Reader) : Prop where
  builder : m.builder r.builder r'.builder
  comments : List.Forall₂ m.token r.comments r'.comments
  findings : List.Forall₂ m.finding r.findings r'.findings
  expects : r'.expects = r.expects

namespace Reader.Paired

variable {m : Tandem} {r r' : Reader} {t t' next next' : Token}

theorem region (h : Paired m r r') : r'.region = r.region := m.region_eq h.builder

/-! ## Moves

Every move of a reader keeps readers paired, if it is made with tokens that go together. -/

theorem expect (h : Paired m r r') (e : Expectation) :
    Paired m { r with expects := e } { r' with expects := e } :=
  ⟨h.builder, h.comments, h.findings, rfl⟩

theorem hold (h : Paired m r r') (ht : m.token t t') : Paired m (r.hold t) (r'.hold t') :=
  ⟨h.builder, .cons ht h.comments, h.findings, h.expects⟩

theorem attach (h : Paired m r r') : Paired m r.attach r'.attach := by
  have hplace : ∀ ⦃t t' : Token⦄, m.token t t' → ∀ ⦃b b' : Builder⦄, m.builder b b' →
      m.builder (b.leaf .lineComment t.span) (b'.leaf .lineComment t'.span) :=
    fun _ _ ht _ _ hb => m.leaf .lineComment hb ht
  exact ⟨List.rel_foldr hplace h.builder h.comments, .nil, h.findings, h.expects⟩

theorem shift (h : Paired m r r') (kind : Node.Kind) (ht : m.token t t') :
    Paired m (r.shift kind t) (r'.shift kind t') :=
  ⟨m.leaf kind h.attach.builder ht, .nil, h.findings, h.expects⟩

theorem enter (h : Paired m r r') (kind : Node.Kind) (ht : m.token t t') :
    Paired m (r.enter kind t) (r'.enter kind t') :=
  ⟨m.enter kind h.attach.builder ht, .nil, h.findings, h.expects⟩

theorem leave (h : Paired m r r') : Paired m r.leave r'.leave :=
  ⟨m.leave h.builder, h.comments, h.findings, h.expects⟩

theorem leaveAt (h : Paired m r r') (ht : m.token t t') :
    Paired m (r.leaveAt t.start) (r'.leaveAt t'.start) :=
  ⟨m.leaveAt h.builder ht, h.comments, h.findings, h.expects⟩

theorem report (h : Paired m r r') (c : Complaint) (ht : m.token t t') :
    Paired m (r.report t (c.problem t)) (r'.report t' (c.problem t')) :=
  ⟨h.builder, h.comments, .cons (m.complain c ht) h.findings, h.expects⟩

theorem reject (h : Paired m r r') (c : Complaint) (ht : m.token t t') :
    Paired m (r.reject t (c.problem t)) (r'.reject t' (c.problem t')) :=
  (h.report c ht).shift .error ht

/-! ## Ends of values and types -/

theorem endType (h : Paired m r r') : Paired m r.endType r'.endType := by
  have hitem := h.expect .item
  unfold Reader.endType
  dsimp only
  rw [hitem.region]
  split
  · exact hitem.leave
  · exact hitem

theorem endValue (h : Paired m r r') (hr : r.builder.top.children ≠ [])
    (hnext : m.token next next') : Paired m (r.endValue next) (r'.endValue next') := by
  unfold Reader.endValue
  rw [m.kind_eq hnext]
  split
  · have hwrap := m.wrap h.builder hr
    generalize r.builder.wrap? .typedExpr = wrapped at hwrap ⊢
    generalize r'.builder.wrap? .typedExpr = wrapped' at hwrap ⊢
    rcases hwrap with hb | _
    · exact ⟨hb, h.comments, h.findings, rfl⟩
    · exact h
  · exact h

theorem awaitType (h : Paired m r r') (hnext : m.token next next') :
    Paired m (r.awaitType next) (r'.awaitType next') := by
  unfold Reader.awaitType
  rw [m.kind_eq hnext]
  split
  · exact h.expect .type
  · exact (h.report (.missing .type) hnext).endType

/-! ## Unclosed lists -/

theorem breakOff (h : Paired m r r') (wanted : Wanted) (ht : m.token t t') :
    Paired m (r.breakOff wanted t) (r'.breakOff wanted t') := by
  have hleft := (h.attach.report (.missing wanted) ht).leaveAt ht
  unfold Reader.breakOff
  dsimp only
  rw [h.region]
  split
  · exact hleft.endType
  · exact hleft

theorem unwind (depth : Nat) (h : Paired m r r') (ht : m.token t t') :
    Paired m (unwind depth r t) (unwind depth r' t') := by
  induction depth generalizing r r' with
  | zero => exact h
  | succ depth ih =>
      rw [Reader.unwind, Reader.unwind, h.region, m.kind_eq ht]
      split
      · exact ih (h.breakOff _ ht)
      · exact h

/-! ## Types and items -/

theorem beginType (h : Paired m r r') (ht : m.token t t') (hnext : m.token next next') :
    Paired m (r.beginType t next) (r'.beginType t' next') := by
  unfold Reader.beginType
  rw [m.kind_eq ht, Tandem.isDots_eq hnext]
  split
  · exact (h.shift .typeName ht).endType
  · exact ((h.enter .typeSexpr ht).shift .openParen ht).expect .item
  · split
    · exact ((h.enter .typeRange ht).shift .integer ht).expect .dots
    · exact (h.shift .integer ht).endType
  · exact h.reject (.missing .type) ht

theorem rangeDots (h : Paired m r r') (ht : m.token t t') (hnext : m.token next next') :
    Paired m (r.rangeDots t next) (r'.rangeDots t' next') := by
  have hdots := h.shift .opalias ht
  unfold Reader.rangeDots
  dsimp only
  rw [m.kind_eq hnext]
  split
  · exact hdots.expect .bound
  · exact (hdots.report (.missing .rangeBound) hnext).leave.endType

theorem rangeBound (h : Paired m r r') (ht : m.token t t') :
    Paired m (r.rangeBound t) (r'.rangeBound t') :=
  (h.shift .integer ht).leave.endType

theorem beginExpr (h : Paired m r r') (ht : m.token t t') (hnext : m.token next next') :
    Paired m (r.beginExpr t next) (r'.beginExpr t' next') := by
  unfold Reader.beginExpr
  rw [m.kind_eq ht, Tandem.leafKind_eq ht]
  split
  · exact (h.enter .sexpr ht).shift .openParen ht
  · exact (h.enter .variants ht).shift .openBrace ht
  · exact (h.reject .colon ht).awaitType hnext
  · exact (h.shift _ ht).endValue (List.cons_ne_nil _ _) hnext

theorem closeValue (h : Paired m r r') (ht : m.token t t') (hnext : m.token next next') :
    Paired m (r.closeValue t next) (r'.closeValue t' next') := by
  have hchild : (r.shift t.leafKind t).leave.builder.top.children ≠ [] := by
    unfold Reader.leave Reader.leaveAt Builder.leave
    split <;> exact List.cons_ne_nil _ _
  unfold Reader.closeValue
  rw [Tandem.leafKind_eq ht]
  exact (h.shift _ ht).leave.endValue hchild hnext

theorem item (h : Paired m r r') (ht : m.token t t') (hnext : m.token next next') :
    Paired m (r.item t next) (r'.item t' next') := by
  unfold Reader.item
  rw [h.region, m.kind_eq ht]
  split
  · split
    · exact (h.shift .closeParen ht).leave.endType
    · exact h.beginType ht hnext
  · split
    · exact h.closeValue ht hnext
    · exact h.reject .slash ht
    · exact h.shift .semicolon ht
    · exact h.beginExpr ht hnext
  · split
    · exact h.closeValue ht hnext
    · exact h.shift .slash ht
    · exact h.shift .semicolon ht
    · exact h.beginExpr ht hnext
  · split
    · exact h.attach
    · exact h.reject .stray ht
    · exact h.reject .stray ht
    · exact h.reject .stray ht
    · exact h.shift .semicolon ht
    · exact h.beginExpr ht hnext

/-! ## Tokens -/

/-- **One step.** Tokens that go together keep readers paired. -/
theorem step (h : Paired m r r') (ht : m.token t t') (hnext : m.token next next') :
    Paired m (r.step t next) (r'.step t' next') := by
  unfold Reader.step
  rw [Tandem.isTrivia_eq ht, h.expects]
  split
  · exact h.hold ht
  · split
    · rw [m.depth_eq h.builder]
      exact (h.unwind _ ht).item ht hnext
    · exact (h.shift .colon ht).awaitType hnext
    · exact h.beginType ht hnext
    · exact h.rangeDots ht hnext
    · exact h.rangeBound ht

/-- **A whole reading.** Lists of tokens that go together keep readers paired. -/
theorem read {last last' : Token} {ts ts' : List Token} (hlast : m.token last last')
    (hts : List.Forall₂ m.token ts ts') (h : Paired m r r') :
    Paired m (Reader.read last r ts) (Reader.read last' r' ts') := by
  induction hts generalizing r r' with
  | nil => exact h
  | cons ht hts ih => exact ih (h.step ht (Tandem.upcoming hlast hts))

end Reader.Paired

end GolfAssist
