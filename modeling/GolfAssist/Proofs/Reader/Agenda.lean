import GolfAssist.Proofs.Reader.Descent

/-!
# What a reader does, routine by routine

* `Descent.Admits` — a task is called where it has something to do: no token is placed at the end of
  the source, no expression is read where none can begin, nothing is wrapped or closed that is not
  there.
* `Descent.Leads` — steps all of whose tasks are admitted.
* `Reader.agenda` — what a reader has still to do, as tasks: what it expects, and for each open
  node, from the inside out, what goes on behind the part of it that is read at present.
* `Reader.Follows` — a descent has come as far as a reader. It may have comments before it that the
  reader has taken already.
* `Reader.Turn.descends` — each turn of a reader is a sequence of admitted steps that leads from the
  agenda of the reader to its agenda behind the turn.

A reader closes and wraps nodes as soon as it sees the next token; the routines do the same when
they return to the task that waits. So after each token both have made the same tree, and the calls
that have not returned are just the open nodes.
-/

namespace GolfAssist

/-! ## Admitted tasks -/

namespace Descent

variable {source : String} {d d' : Descent} {task : Task} {agenda : List Task}

/-- The task is called where it has something to do. -/
def Admits (d : Descent) : Task → Prop
  | .expr => d.kind ∉ [.eof, .closeParen, .closeBrace, .slash, .semicolon]
  | .sexpr | .variants | .typeSexpr | .rangeOrInteger | .bump _ => d.kind ≠ .eof
  | .annotate => (d.builder.wrap? .typedExpr).isSome
  | .leaveAt _ => d.builder.outer ≠ []
  | _ => True

/-- Any number of steps, each of which performs a task that is admitted. -/
def Leads : Descent × List Task → Descent × List Task → Prop :=
  Relation.ReflTransGen fun s s' => (∀ task ∈ s.2.head?, s.1.Admits task) ∧ step? s = some s'

/-- A task that is admitted leaves its own tasks in front of those that wait. -/
theorem leads_of_perform (tasks : List Task) (hp : d.perform task = (d', tasks))
    (ha : d.Admits task) : Leads (d, task :: agenda) (d', tasks ++ agenda) := by
  refine .single ⟨?_, ?_⟩
  · rintro _ ⟨⟩
    exact ha
  · rw [step?, hp]

/-- In front of a token, that token can be placed. -/
theorem leads_bump (h : d.kind ≠ .eof) (kind : Node.Kind) :
    Leads (d, .bump kind :: agenda) (d.bump kind, agenda) :=
  leads_of_perform [] rfl h

/-- The next token can always be reported. -/
theorem leads_report (message : String) :
    Leads (d, .report message :: agenda) (d.report message, agenda) :=
  leads_of_perform [] rfl trivial

/-- A node can always be opened. -/
theorem leads_enter (kind : Node.Kind) : Leads (d, .enter kind :: agenda) (d.enter kind, agenda) :=
  leads_of_perform [] rfl trivial

/-- A node that is not the root can be closed. -/
theorem leads_leaveAt (h : d.builder.outer ≠ []) (stop : Nat) :
    Leads (d, .leaveAt stop :: agenda) (d.leaveAt stop, agenda) :=
  leads_of_perform [] rfl h

/-- Any task leaves a reading steady. -/
theorem Steady.perform (h : d.Steady source) (task : Task) :
    (d.perform task).1.Steady source := by
  have hstep : Steps (d, [task]) ((d.perform task).1, (d.perform task).2 ++ []) := .single rfl
  exact hstep.steady h

end Descent

/-! ## Messages -/

namespace Problem

/-- The message that something is missing names the token in front of which it is. -/
theorem message_missingBefore (wanted : Wanted) (t : Token) :
    (missingBefore wanted t).message =
      "expected " ++ wanted.describe ++ ", found " ++ t.described := by
  apply String.ext
  unfold missingBefore Token.described
  split
  · show ("expected " ++ wanted.describe ++ ", found end of input").toList = _
    simp
  · show ("expected " ++ wanted.describe ++ ", found `" ++ t.text ++ "`").toList = _
    simp

theorem message_missing_type (t : Token) :
    (missingBefore .type t).message = "expected type, found " ++ t.described := by
  have hwords : "expected " ++ Wanted.type.describe ++ ", found " = "expected type, found " := by
    decide
  rw [message_missingBefore, hwords]

theorem message_missing_rangeBound (t : Token) :
    (missingBefore .rangeBound t).message = "expected range bound, found " ++ t.described := by
  have hwords : "expected " ++ Wanted.rangeBound.describe ++ ", found " =
      "expected range bound, found " := by
    decide
  rw [message_missingBefore, hwords]

/-- The message about a stray token names it. -/
theorem message_stray {t : Token} (ht : t.kind ≠ .eof) :
    (stray t.text).message = "unexpected " ++ t.described := by
  have hdescribed : t.described = "`" ++ t.text ++ "`" := if_neg ht
  rw [hdescribed]
  apply String.ext
  show ("unexpected `" ++ t.text ++ "`").toList = _
  simp

end Problem

/-! ## What goes on in a node

At each token, the task to go on in an open node calls for others. The cases are those of the rules
of reading. -/

namespace Node.Kind

/-- What goes on in an open node of the kind behind each of its parts. -/
def goesOn : Node.Kind → Task
  | .sexpr => .sexprItems
  | .variants => .variantsItems
  | .typeSexpr => .typeItems
  | .typedExpr | .typeRange => .leave
  | _ => .program

/-- What is to be done when a node of the kind is closed. -/
def sequel : Node.Kind → List Task
  | .sexpr | .variants => [.ascription]
  | _ => []

/-- What waits for the part that is read at present, in an open node of the kind. -/
def tasks (kind : Node.Kind) : List Task := kind.goesOn :: kind.sequel

/-- The nodes that hold values. -/
theorem eq_of_holdsValues {region : Node.Kind} (h : region.holdsValues) :
    region = .program ∨ region = .sexpr ∨ region = .variants := by
  unfold holdsValues at h
  split at h <;> simp_all

end Node.Kind

namespace Descent

variable {d : Descent} {t next : Token} {region : Node.Kind} {agenda : List Task}

/-- To go on is admitted everywhere. -/
theorem admits_goesOn (d : Descent) (region : Node.Kind) : d.Admits region.goesOn := by
  cases region <;> trivial

/-- A token that divides expressions is placed. -/
theorem perform_divide (hf : d.Faces t) (ht : region.isDividedBy t.kind) :
    d.perform region.goesOn = (d, [.bump t.leafKind, region.goesOn]) := by
  simp only [Node.Kind.isDividedBy, Bool.or_eq_true, Bool.and_eq_true, decide_eq_true_eq] at ht
  rcases ht with ⟨hv, hk⟩ | ⟨rfl, hk⟩
  · rcases Node.Kind.eq_of_holdsValues hv with rfl | rfl | rfl <;>
      simp only [Node.Kind.goesOn, perform, hf.kind_eq, hk, Token.leafKind]
  · simp only [Node.Kind.goesOn, perform, hf.kind_eq, hk, Token.leafKind]

/-- A token that begins an expression calls for one. -/
theorem perform_value (hf : d.Faces t) (hv : region.holdsValues)
    (ht : t.kind.isAtom ∨ (∃ kind, t.kind.opens? = some kind) ∨ t.kind = .colon) :
    d.perform region.goesOn = (d, [.expr, region.goesOn]) := by
  rcases Node.Kind.eq_of_holdsValues hv with rfl | rfl | rfl <;>
    simp only [Node.Kind.goesOn, perform, hf.kind_eq] <;>
    cases hk : t.kind <;> simp_all [Token.Kind.isAtom, Token.Kind.opens?]

/-- A token that does not belong is rejected. -/
theorem perform_stray (hf : d.Faces t) (ht : region.rejects t.kind) :
    d.perform region.goesOn =
      (d, [.reject (region.objection t).message, region.goesOn]) := by
  have hcases :
      region = .program ∧ (t.kind = .closeParen ∨ t.kind = .closeBrace ∨ t.kind = .slash) ∨
      region = .sexpr ∧ t.kind = .slash ∨
      region = .typeSexpr ∧ (t.kind = .variable ∨ t.kind = .string ∨ t.kind = .op ∨
        t.kind = .openBrace ∨ t.kind = .colon ∨ t.kind = .unknown) := by
    unfold Node.Kind.rejects at ht
    split at ht <;> simp_all
  rcases hcases with ⟨rfl, hk⟩ | ⟨rfl, hk⟩ | ⟨rfl, hk⟩
  · have hne : t.kind ≠ .eof := by rcases hk with hk | hk | hk <;> simp [hk]
    have hmessage := Problem.message_stray hne
    rw [← hf.describe_eq] at hmessage
    simp only [Node.Kind.goesOn, Node.Kind.objection, hmessage, perform, hf.kind_eq]
    rcases hk with hk | hk | hk <;> simp only [hk]
  · have hmessage : Problem.slashOutsideBraces.message =
        "unexpected `/` outside of `\x7b \x7d`" := rfl
    simp only [Node.Kind.goesOn, Node.Kind.objection, hmessage, perform, hf.kind_eq, hk]
  · have hmessage := Problem.message_missing_type t
    rw [← hf.describe_eq] at hmessage
    simp only [Node.Kind.goesOn, Node.Kind.objection, hmessage, perform, hf.kind_eq]
    rcases hk with hk | hk | hk | hk | hk | hk <;> simp only [hk]

/-- A closer is placed, and the node is closed. -/
theorem perform_close (hf : d.Faces t) (ht : region.closer? = some t.kind) :
    d.perform region.goesOn = (d, [.bump t.leafKind, .leave]) := by
  have hcases : region = .sexpr ∧ t.kind = .closeParen ∨
      region = .variants ∧ t.kind = .closeBrace := by
    unfold Node.Kind.closer? at ht
    split at ht <;> simp_all
  rcases hcases with ⟨rfl, hk⟩ | ⟨rfl, hk⟩ <;>
    simp only [Node.Kind.goesOn, perform, hf.kind_eq, hk, Token.leafKind]

/-- A token that cannot belong to the node breaks it off. -/
theorem perform_broken {wanted : Wanted} (hf : d.Faces t)
    (hb : region.brokenBy t.kind = some wanted) :
    d.perform region.goesOn = (d, [.breakOff wanted.describe]) := by
  have hcases :
      region = .sexpr ∧ (t.kind = .eof ∨ t.kind = .closeBrace) ∧ wanted = .closeParen ∨
      region = .variants ∧ (t.kind = .eof ∨ t.kind = .closeParen) ∧ wanted = .closeBrace ∨
      region = .typeSexpr ∧ (t.kind = .eof ∨ t.kind = .closeBrace ∨ t.kind = .slash ∨
        t.kind = .semicolon) ∧ wanted = .closeParen := by
    unfold Node.Kind.brokenBy at hb
    split at hb <;> simp_all
  rcases hcases with ⟨rfl, hk, rfl⟩ | ⟨rfl, hk, rfl⟩ | ⟨rfl, hk, rfl⟩
  · rcases hk with hk | hk <;>
      simp only [Node.Kind.goesOn, perform, hf.kind_eq, hk, Wanted.describe]
  · rcases hk with hk | hk <;>
      simp only [Node.Kind.goesOn, perform, hf.kind_eq, hk, Wanted.describe]
  · rcases hk with hk | hk | hk | hk <;>
      simp only [Node.Kind.goesOn, perform, hf.kind_eq, hk, Wanted.describe]

/-! ## What begins

An expression or a type that is called for begins with the next token. -/

/-- An expression is called for where one begins. -/
theorem admits_expr (hf : d.Faces t)
    (ht : t.kind.isAtom ∨ (∃ kind, t.kind.opens? = some kind) ∨ t.kind = .colon) :
    d.Admits .expr := by
  show d.kind ∉ _
  rw [hf.kind_eq]
  cases hk : t.kind <;> simp_all [Token.Kind.isAtom, Token.Kind.opens?]

/-- A token that is an expression is placed. -/
theorem leads_atom (hf : d.Faces t) (ht : t.kind.isAtom) :
    Leads (d, .expr :: agenda) (d, .bump t.leafKind :: .ascription :: agenda) := by
  refine leads_of_perform [.bump t.leafKind, .ascription] ?_ (admits_expr hf (.inl ht))
  simp only [perform, hf.kind_eq]
  cases hk : t.kind <;> simp_all [Token.Kind.isAtom, Token.leafKind, hf.text_eq]

/-- A token that opens a list is placed in it, and the list goes on. -/
theorem leads_list {kind : Node.Kind} (hf : d.Faces t) (ht : t.kind.opens? = some kind) :
    Leads (d, .expr :: agenda) (d, .enter kind :: .bump t.leafKind :: (kind.tasks ++ agenda)) := by
  have hadmits := admits_expr hf (.inr (.inl ⟨kind, ht⟩))
  have hcases : t.kind = .openParen ∧ kind = .sexpr ∨ t.kind = .openBrace ∧ kind = .variants := by
    unfold Token.Kind.opens? at ht
    split at ht <;> simp_all
  rcases hcases with ⟨hk, rfl⟩ | ⟨hk, rfl⟩
  · have hcalled : Leads (d, .expr :: agenda) (d, .sexpr :: .ascription :: agenda) :=
      leads_of_perform [.sexpr, .ascription] (by simp only [perform, hf.kind_eq, hk]) hadmits
    have hne : d.kind ≠ .eof := by simp [hf.kind_eq, hk]
    rw [Token.leafKind, hk]
    exact hcalled.trans (leads_of_perform [.enter .sexpr, .bump .openParen, .sexprItems] rfl hne)
  · have hcalled : Leads (d, .expr :: agenda) (d, .variants :: .ascription :: agenda) :=
      leads_of_perform [.variants, .ascription] (by simp only [perform, hf.kind_eq, hk]) hadmits
    have hne : d.kind ≠ .eof := by simp [hf.kind_eq, hk]
    rw [Token.leafKind, hk]
    exact hcalled.trans
      (leads_of_perform [.enter .variants, .bump .openBrace, .variantsItems] rfl hne)

/-- A colon without an expression is rejected, and its type is read. -/
theorem leads_bareColon (hf : d.Faces t) (hk : t.kind = .colon) :
    Leads (d, .expr :: agenda) (d, .reject Problem.bareColon.message :: .type :: agenda) := by
  have hmessage : Problem.bareColon.message = "expected expression before `:`" := rfl
  rw [hmessage]
  exact leads_of_perform [.reject "expected expression before `:`", .type]
    (by simp only [perform, hf.kind_eq, hk]) (admits_expr hf (.inr (.inr hk)))

/-- A word names a type. -/
theorem leads_typeName (hf : d.Faces t) (hk : t.kind = .word) :
    Leads (d, .type :: agenda) (d, .bump .typeName :: agenda) :=
  leads_of_perform [.bump .typeName] (by simp only [perform, hf.kind_eq, hk]) trivial

/-- A parenthesis opens a list of types, which goes on. -/
theorem leads_types (hf : d.Faces t) (hk : t.kind = .openParen) :
    Leads (d, .type :: agenda)
      (d, .enter .typeSexpr :: .bump .openParen :: .typeItems :: agenda) := by
  have hcalled : Leads (d, .type :: agenda) (d, .typeSexpr :: agenda) :=
    leads_of_perform [.typeSexpr] (by simp only [perform, hf.kind_eq, hk]) trivial
  have hne : d.kind ≠ .eof := by simp [hf.kind_eq, hk]
  exact hcalled.trans
    (leads_of_perform [.enter .typeSexpr, .bump .openParen, .typeItems] rfl hne)

/-- An integer begins a range, or is a type by itself. -/
theorem leads_integer (hf : d.Faces t) (hk : t.kind = .integer) :
    Leads (d, .type :: agenda) (d, .rangeOrInteger :: agenda) :=
  leads_of_perform [.rangeOrInteger] (by simp only [perform, hf.kind_eq, hk]) trivial

/-- Whether the dots of a range follow is seen from the token behind the next one. -/
theorem isDots_iff (h : d.ahead 1 = some next) :
    (d.kindAhead 1 = .op ∧ d.textAhead 1 = "..") ↔ next.isDots := by
  simp [kindAhead, textAhead, h, Token.isDots]

/-- Without dots behind it, an integer is placed. -/
theorem leads_typeInteger (hf : d.Faces t) (hk : t.kind = .integer)
    (hnext : d.ahead 1 = some next) (hn : next.isDots = false) :
    Leads (d, .type :: agenda) (d, .bump .integer :: agenda) := by
  have hne : d.kind ≠ .eof := by simp [hf.kind_eq, hk]
  refine (leads_integer hf hk).trans (leads_of_perform [.bump .integer] ?_ hne)
  rw [perform, if_neg]
  rw [isDots_iff hnext, hn]
  simp

/-- With dots behind it, an integer opens a range. -/
theorem leads_range (hf : d.Faces t) (hk : t.kind = .integer) (hnext : d.ahead 1 = some next)
    (hn : next.isDots) :
    Leads (d, .type :: agenda) (d, .enter .typeRange :: .bump .integer :: .bump .opalias ::
      .upperBound :: .leave :: agenda) := by
  have hne : d.kind ≠ .eof := by simp [hf.kind_eq, hk]
  refine (leads_integer hf hk).trans (leads_of_perform
    [.enter .typeRange, .bump .integer, .bump .opalias, .upperBound, .leave] ?_ hne)
  rw [perform, if_pos ((isDots_iff hnext).mpr hn)]

/-- An upper bound that comes is placed. -/
theorem leads_bound (hf : d.Faces t) (hk : t.kind = .integer) :
    Leads (d, .upperBound :: agenda) (d, .bump .integer :: agenda) :=
  leads_of_perform [.bump .integer] (by rw [perform, if_pos (hf.kind_eq.trans hk)]) trivial

/-- An upper bound that does not come is reported. -/
theorem leads_noBound (hf : d.Faces t) (hk : t.kind ≠ .integer) :
    Leads (d, .upperBound :: agenda)
      (d.report (Problem.missingBefore .rangeBound t).message, agenda) := by
  have hkind : d.kind ≠ .integer := by rwa [hf.kind_eq]
  rw [Problem.message_missing_rangeBound, ← hf.describe_eq]
  have hcalled : Leads (d, .upperBound :: agenda)
      (d, .report ("expected range bound, found " ++ d.describe) :: agenda) :=
    leads_of_perform [.report _] (by rw [perform, if_neg hkind]) trivial
  exact hcalled.trans (leads_report _)

end Descent

/-! ## The agenda of a reader -/

/-- What has to be done before anything that waits. -/
def Expectation.tasks : Expectation → List Task
  | .item => []
  | .colon => [.bump .colon, .type]
  | .type => [.type]
  | .dots => [.bump .opalias, .upperBound]
  | .bound => [.upperBound]

namespace Reader

open Descent

variable {source : String} {r r' : Reader} {t next : Token} {rest : List Token} {d : Descent}
  {s s' : Descent × List Task}

/-- What waits in the nodes around the open one, from the inside out. -/
def around (r : Reader) : List Task := r.builder.outer.flatMap (·.kind.tasks)

/-- What waits in all open nodes. -/
def waiting (r : Reader) : List Task := r.region.tasks ++ r.around

/-- All that the reader has still to do. -/
def agenda (r : Reader) : List Task := r.expects.tasks ++ r.waiting

/-- Where items are expected, just what waits is to be done. -/
theorem agenda_of_item (h : r.expects = .item) : r.agenda = r.waiting := by
  rw [agenda, h]
  rfl

/-- A leaf does not touch the nodes around the open one. -/
@[simp] theorem around_shift (r : Reader) (kind : Node.Kind) (t : Token) :
    (r.shift kind t).around = r.around :=
  congrArg (List.flatMap _) (attach_outer r)

/-- Comments do not change what waits. -/
theorem waiting_attach (r : Reader) : r.attach.waiting = r.waiting := by
  rw [waiting, waiting, attach_region]
  exact congrArg (_ ++ ·) (congrArg (List.flatMap _) (attach_outer r))

/-- A leaf does not change what waits. -/
@[simp] theorem waiting_shift (r : Reader) (kind : Node.Kind) (t : Token) :
    (r.shift kind t).waiting = r.waiting := by
  rw [waiting, waiting, shift_region, around_shift]

/-- A token that does not belong does not change what waits. -/
theorem waiting_reject (r : Reader) (t : Token) (problem : Problem) :
    (r.reject t problem).waiting = r.waiting :=
  waiting_shift (r.report t problem) .error t

/-- A new open node has what waits in it to do first. -/
@[simp] theorem waiting_enter (r : Reader) (kind : Node.Kind) (t : Token) :
    (r.enter kind t).waiting = kind.tasks ++ r.waiting := by
  show kind.tasks ++ (r.attach.region.tasks ++ r.attach.builder.outer.flatMap _) = _
  rw [attach_region, attach_outer]
  rfl

/-- When the open node is closed, what waits around it is left to do. -/
theorem waiting_leaveAt (h : r.builder.outer ≠ []) (stop : Nat) :
    (r.leaveAt stop).waiting = r.around := by
  obtain ⟨g, gs, houter⟩ := List.exists_cons_of_ne_nil h
  unfold waiting around leaveAt region Builder.leave
  rw [houter]
  rfl

/-! ## Descents beside readers -/

variable {agenda agenda' : List Task}

/-- The descent has placed all that the reader has read, and no comment waits. -/
structure Abreast (source : String) (r : Reader) (rest : List Token) (d : Descent) : Prop where
  steady : d.Steady source
  /-- The same tokens are left. -/
  rest : d.rest = rest
  /-- The tree is the same. -/
  builder : d.builder = r.builder
  /-- The reader holds no comment back. -/
  comments : r.comments = []
  /-- The same has been reported. -/
  diagnostics : d.diagnostics = r.findings.map (·.diagnostic)

/-- The descent has placed all that the reader has read, except for comments that come last. -/
structure Follows (source : String) (r : Reader) (rest : List Token) (d : Descent) : Prop where
  steady : d.Steady source
  /-- With those comments, the tokens that are left and the tree are the same. -/
  comments : ∃ comments, d.rest = comments ++ rest ∧ (∀ c ∈ comments, c.isTrivia) ∧
    comments.foldl (fun b c => b.leaf .lineComment c.span) d.builder = r.attach.builder
  /-- The same has been reported. -/
  diagnostics : d.diagnostics = r.findings.map (·.diagnostic)

/-- Where no comment waits, none has to be placed. -/
theorem Abreast.follows (h : Abreast source r rest d) : Follows source r rest d := by
  refine ⟨h.steady, ⟨[], h.rest, fun c hc => absurd hc List.not_mem_nil, ?_⟩, h.diagnostics⟩
  unfold attach
  rw [h.comments]
  exact h.builder

/-- A comment that the reader holds back is one more that the descent has to place. -/
theorem Follows.hold (h : Follows source r (t :: rest) d) (ht : t.isTrivia) :
    Follows source (r.hold t) rest d := by
  obtain ⟨comments, hrest, hcomments, hbuilder⟩ := h.comments
  refine ⟨h.steady, ⟨comments ++ [t], ?_, ?_, ?_⟩, h.diagnostics⟩
  · rw [hrest, List.append_assoc]
    rfl
  · intro c hc
    rcases List.mem_append.mp hc with hc | hc
    · exact hcomments c hc
    · rwa [List.mem_singleton.mp hc]
  · rw [List.foldl_append, hbuilder]
    rfl

/-- Both stand in front of the same token. -/
theorem Follows.faces (h : Follows source r (t :: rest) d) (ht : t.isTrivia = false) :
    d.Faces t := by
  obtain ⟨comments, hrest, hcomments, -⟩ := h.comments
  exact faces_of_split hrest hcomments ht

/-- To place comments changes nothing for a descent that may have them before it. -/
theorem Follows.attach (h : Follows source r rest d) : Follows source r.attach rest d :=
  ⟨h.steady, h.comments, h.diagnostics⟩

/-- Both see the same token behind the next one. -/
theorem Follows.ahead_one (h : Follows source r (t :: rest) d) (ht : t.isTrivia = false)
    (hne : t.kind ≠ .eof) (hnext : rest.find? (!·.isTrivia) = some next) :
    d.ahead 1 = some next := by
  obtain ⟨comments, hrest, hcomments, -⟩ := h.comments
  exact Descent.ahead_one hrest hcomments ht hne hnext

/-- Once the comments are placed, the two are abreast. -/
theorem Follows.flush (h : Follows source r (t :: rest) d) (ht : t.isTrivia = false) :
    Abreast source r.attach (t :: rest) d.flush := by
  obtain ⟨comments, hrest, hcomments, hbuilder⟩ := h.comments
  have hflush := flush_eq hrest hcomments ht
  obtain ⟨hrest', hbuilder', hdiagnostics⟩ := foldl_place hrest
  rw [← hflush] at hrest' hbuilder' hdiagnostics
  exact ⟨h.steady.perform .flush, hrest', hbuilder'.trans hbuilder, rfl,
    hdiagnostics.trans h.diagnostics⟩

/-- A report of the next token is made in both. -/
theorem Follows.report (h : Follows source r rest d) (hf : d.Faces t) (problem : Problem) :
    Follows source (r.report t problem) rest (d.report problem.message) := by
  refine ⟨h.steady.perform (.report _), h.comments, ?_⟩
  show ⟨problem.message, d.span⟩ :: d.diagnostics = _
  rw [hf.span_eq, h.diagnostics]
  rfl

/-- A report of the next token is made in both. -/
theorem Abreast.report (h : Abreast source r rest d) (hf : d.Faces t) (problem : Problem) :
    Abreast source (r.report t problem) rest (d.report problem.message) :=
  ⟨h.steady.perform (.report _), h.rest, h.builder, h.comments,
    (h.follows.report hf problem).diagnostics⟩

/-- A node is closed in both. -/
theorem Abreast.leaveAt (h : Abreast source r rest d) (stop : Nat) :
    Abreast source (r.leaveAt stop) rest (d.leaveAt stop) :=
  ⟨h.steady.perform (.leaveAt _), h.rest, congrArg (·.leave stop) h.builder, h.comments,
    h.diagnostics⟩

/-- What the reader expects is not a matter of the descent. -/
theorem Abreast.expect (h : Abreast source r rest d) (expects : Expectation) :
    Abreast source { r with expects } rest d :=
  ⟨h.steady, h.rest, h.builder, h.comments, h.diagnostics⟩

/-! ## Moves -/

/-- Admitted steps lead from the state to one abreast of the reader, with the agenda. -/
def Arrives (source : String) (s : Descent × List Task) (r : Reader) (rest : List Token)
    (agenda : List Task) : Prop :=
  ∃ d, Leads s (d, agenda) ∧ Abreast source r rest d

/-- Steps may come first. -/
theorem Arrives.after (h : Arrives source s' r rest agenda) (hs : Leads s s') :
    Arrives source s r rest agenda := by
  obtain ⟨d, hd, habreast⟩ := h
  exact ⟨d, hs.trans hd, habreast⟩

/-- One may go on from where one arrives. -/
theorem Arrives.andThen {rest' : List Token} (h : Arrives source s r rest agenda)
    (go : ∀ {d}, Abreast source r rest d → Arrives source (d, agenda) r' rest' agenda') :
    Arrives source s r' rest' agenda' := by
  obtain ⟨d, hd, habreast⟩ := h
  exact (go habreast).after hd

/-- What the reader expects is not a matter of where one arrives. -/
theorem Arrives.expect (h : Arrives source s r rest agenda) (expects : Expectation) :
    Arrives source s { r with expects } rest agenda :=
  h.andThen fun h => ⟨_, .refl, h.expect expects⟩

/-- A token is placed by both. -/
theorem Follows.bump (h : Follows source r (t :: rest) d) (ht : t.isTrivia = false)
    (hne : t.kind ≠ .eof) (kind : Node.Kind) :
    Arrives source (d, .bump kind :: agenda) (r.shift kind t) rest agenda := by
  have hflush := h.flush ht
  have hbump := bump_eq hflush.rest hne kind
  refine ⟨d.bump kind, leads_bump (by rwa [(h.faces ht).kind_eq]) kind,
    h.steady.perform (.bump kind), ?_, ?_, rfl, ?_⟩
  · rw [hbump, rest_place hflush.rest]
  · rw [hbump]
    exact congrArg (·.leaf kind t.span) hflush.builder
  · rw [hbump]
    exact hflush.diagnostics

/-- A token that does not belong is reported and placed by both. -/
theorem Follows.reject (h : Follows source r (t :: rest) d) (ht : t.isTrivia = false)
    (hne : t.kind ≠ .eof) (problem : Problem) :
    Arrives source (d, .reject problem.message :: agenda) (r.reject t problem) rest agenda := by
  have hfaces := h.faces ht
  have hcalled : Leads (d, .reject problem.message :: agenda)
      (d, .report problem.message :: .bump .error :: agenda) :=
    leads_of_perform [.report problem.message, .bump .error] rfl trivial
  exact ((h.report hfaces problem).bump ht hne .error).after (hcalled.trans (leads_report _))

/-- A node is opened by both. -/
theorem Follows.enter (h : Follows source r (t :: rest) d) (ht : t.isTrivia = false)
    (kind : Node.Kind) :
    Arrives source (d, .enter kind :: agenda) (r.enter kind t) (t :: rest) agenda := by
  have hflush := h.flush ht
  have hfaces := hflush.follows.faces ht
  refine ⟨d.enter kind, leads_enter kind, h.steady.perform (.enter kind), hflush.rest, ?_, rfl,
    hflush.diagnostics⟩
  show d.flush.builder.enter kind d.flush.span.start = _
  rw [hfaces.span_eq, hflush.builder]
  rfl

/-- A node with its first token is opened by both. -/
theorem Follows.enterBump (h : Follows source r (t :: rest) d) (ht : t.isTrivia = false)
    (hne : t.kind ≠ .eof) (kind leaf : Node.Kind) :
    Arrives source (d, .enter kind :: .bump leaf :: agenda) ((r.enter kind t).shift leaf t) rest
      agenda :=
  (h.enter ht kind).andThen fun h => h.follows.bump ht hne leaf

/-- A node is closed behind its children by both. -/
theorem Abreast.leave (h : Abreast source r rest d) (ho : r.builder.outer ≠ []) :
    Arrives source (d, .leave :: agenda) r.leave rest agenda := by
  have hcalled : Leads (d, .leave :: agenda) (d, .leaveAt d.lastEnd :: agenda) :=
    leads_of_perform [.leaveAt d.lastEnd] rfl trivial
  have hleft : Leads (d, .leaveAt d.lastEnd :: agenda) (d.leaveAt d.lastEnd, agenda) :=
    leads_leaveAt (by rwa [h.builder]) _
  rw [h.steady.leaveAt_lastEnd] at hleft
  exact ⟨_, hcalled.trans hleft, h.leaveAt 0⟩

/-! ## Ends of values and types -/

/-- A node that is not the root has one around it. -/
theorem outer_ne_nil (hn : Nested r.frames) (hr : r.region ≠ .program) : r.builder.outer ≠ [] := by
  obtain ⟨g, gs, houter, -⟩ := hn.exists_cons hr
  rw [houter]
  exact List.cons_ne_nil _ _

/-- Behind a type, the expression that waits for it is closed. -/
theorem Abreast.endType (h : Abreast source r rest d) (hn : Nested r.frames) :
    Arrives source (d, r.waiting) r.endType rest r.endType.agenda := by
  rw [agenda_of_item (endType_expects r)]
  by_cases hreg : r.region = .typedExpr
  · have ho := outer_ne_nil hn (by simp [hreg])
    have hwaiting : r.waiting = .leave :: r.leave.waiting := by
      rw [Reader.leave, waiting_leaveAt ho, waiting, hreg]
      rfl
    rw [endType_of_typedExpr hreg, hwaiting]
    exact (h.leave ho).andThen fun h => ⟨_, .refl, h.expect .item⟩
  · rw [endType_of_ne_typedExpr hreg]
    exact ⟨d, .refl, h.expect .item⟩

/-- Behind a value, a colon wraps it. -/
theorem Abreast.endValue {n : Node} {others : List Node} (h : Abreast source r rest d)
    (hx : r.expects = .item) (hf : d.Faces next) (hr : r.builder.top.children = n :: others) :
    Arrives source (d, .ascription :: r.waiting) (r.endValue next) rest
      (r.endValue next).agenda := by
  by_cases hc : next.kind = .colon
  · have hkind : d.kind = .colon := hf.kind_eq.trans hc
    have hwrap : d.builder.wrap? .typedExpr = some (r.endValue next).builder := by
      rw [endValue_of_colon hc hr, h.builder, Builder.wrap?, hr]
    have hcalled : Leads (d, .ascription :: r.waiting) (d, .annotate :: r.waiting) :=
      leads_of_perform [.annotate] (by rw [perform, if_pos hkind]) trivial
    have hwrapped : Leads (d, .annotate :: r.waiting)
        ({ d with builder := (r.endValue next).builder },
          .bump .colon :: .type :: .leave :: r.waiting) :=
      leads_of_perform [.bump .colon, .type, .leave] (by rw [perform, hwrap])
        (by rw [Admits, hwrap]; rfl)
    have hsteady := h.steady.perform .annotate
    rw [perform, hwrap] at hsteady
    have hagenda : (r.endValue next).agenda = .bump .colon :: .type :: .leave :: r.waiting := by
      rw [endValue_of_colon hc hr]
      rfl
    rw [hagenda]
    refine ⟨_, hcalled.trans hwrapped, hsteady, h.rest, rfl, ?_, ?_⟩
    · rw [endValue_of_colon hc hr]
      exact h.comments
    · rw [endValue_of_colon hc hr]
      exact h.diagnostics
  · have hkind : d.kind ≠ .colon := by rwa [hf.kind_eq]
    rw [endValue_of_ne_colon hc, agenda_of_item hx]
    exact ⟨d, leads_of_perform [] (by rw [perform, if_neg hkind]) trivial, h⟩

/-- Behind a colon, a type is read or missed. -/
theorem Abreast.awaitType (h : Abreast source r rest d) (hn : Nested r.frames)
    (hf : d.Faces next) :
    Arrives source (d, .type :: r.waiting) (r.awaitType next) rest (r.awaitType next).agenda := by
  by_cases hs : next.kind.startsType
  · rw [awaitType_of_startsType hs]
    exact ⟨d, .refl, h.expect .type⟩
  · rw [awaitType_of_not_startsType hs]
    have hperform : d.perform .type =
        (d, [.report (Problem.missingBefore .type next).message]) := by
      rw [Problem.message_missing_type, ← hf.describe_eq, perform, hf.kind_eq]
      split <;> simp_all [Token.Kind.startsType]
    have hcalled : Leads (d, .type :: r.waiting)
        (d.report (Problem.missingBefore .type next).message, r.waiting) :=
      (leads_of_perform _ hperform trivial).trans (leads_report _)
    exact ((h.report hf _).endType hn).after hcalled

/-! ## Turns -/

/-- Where items are expected, the first task is to go on in the open node. -/
theorem leads_item {tasks : List Task} (hx : r.expects = .item)
    (hp : d.perform r.region.goesOn = (d, tasks)) :
    Leads (d, r.agenda) (d, tasks ++ (r.region.sequel ++ r.around)) := by
  rw [agenda_of_item hx]
  exact leads_of_perform tasks hp (admits_goesOn d r.region)

/-- Where a type is read next, it is called for. -/
theorem AwaitsType.leads (h : r.AwaitsType) (hf : d.Faces t) (ht : t.kind.startsType) :
    Leads (d, r.agenda) (d, .type :: r.waiting) := by
  rcases h with hx | ⟨hx, hreg⟩
  · rw [agenda, hx]
    exact .refl
  · have hp : d.perform r.region.goesOn = (d, [.type, r.region.goesOn]) := by
      simp only [hreg, Node.Kind.goesOn, perform, hf.kind_eq]
      cases hk : t.kind <;> simp_all [Token.Kind.startsType]
    exact leads_item hx hp

/-- What comes next is faced. -/
theorem Abreast.faces (h : Abreast source r rest d)
    (hnext : rest.find? (!·.isTrivia) = some next) : d.Faces next := by
  rw [Faces, h.rest]
  exact hnext

/-- The nesting is kept when a node that is not the root is closed. -/
theorem nested_leaveAt (hn : Nested r.frames) (hr : r.region ≠ .program) (stop : Nat) :
    Nested (r.leaveAt stop).frames := by
  obtain ⟨f, g, gs, hframes, -, -, hgs⟩ := exists_frames hn hr
  rw [frames_leaveAt hframes]
  exact hgs.push _

/-- A list is closed in front of the token, and what it wants is reported there, by both. -/
theorem Follows.closeEarly {wanted : Wanted} (h : Follows source r (t :: rest) d)
    (ht : t.isTrivia = false) (ho : r.builder.outer ≠ []) (hx : r.expects = .item)
    (hb : r.region.brokenBy t.kind = some wanted) :
    Arrives source (d, r.agenda)
      ((r.attach.report t (.missingBefore wanted t)).leaveAt t.start) (t :: rest)
      (r.region.sequel ++ ((r.attach.report t (.missingBefore wanted t)).leaveAt t.start).waiting)
      := by
  have habreast := h.flush ht
  have hfaces := habreast.follows.faces ht
  have houter : r.attach.builder.outer ≠ [] := by rwa [attach_outer]
  have hperform : d.perform (.breakOff wanted.describe) =
      (d.flush, [.report (Problem.missingBefore wanted t).message, .leaveAt t.start]) := by
    have hstart : d.flush.span.start = t.start := congrArg Span.start hfaces.span_eq
    rw [Problem.message_missingBefore, ← hfaces.describe_eq, ← hstart, perform]
  have hwaiting : ((r.attach.report t (.missingBefore wanted t)).leaveAt t.start).waiting =
      r.around := by
    rw [waiting_leaveAt (r := r.attach.report t _) houter]
    exact congrArg (List.flatMap _) (attach_outer r)
  rw [hwaiting]
  refine ⟨_, ?_, (habreast.report hfaces (.missingBefore wanted t)).leaveAt t.start⟩
  refine (leads_item hx (perform_broken (h.faces ht) hb)).trans ?_
  refine (leads_of_perform _ hperform trivial).trans ((leads_report _).trans ?_)
  exact leads_leaveAt (by rwa [← habreast.builder] at houter) _

/-- A list is broken off by both. -/
theorem Follows.breakOff {wanted : Wanted} (h : Follows source r (t :: rest) d)
    (ht : t.isTrivia = false) (hr : r.Ready t) (hx : r.expects = .item)
    (hb : r.region.brokenBy t.kind = some wanted) :
    Arrives source (d, r.agenda) (r.breakOff wanted t) (t :: rest)
      (r.breakOff wanted t).agenda := by
  have hlist := region_of_brokenBy hb
  have hne : r.region ≠ .program := by rcases hlist with hreg | hreg | hreg <;> simp [hreg]
  have hclosed := h.closeEarly ht (outer_ne_nil hr.nested hne) hx hb
  by_cases htype : r.region = .typeSexpr
  · rw [breakOff_of_typeSexpr htype]
    rw [htype] at hclosed
    refine hclosed.andThen fun h => h.endType ?_
    exact nested_leaveAt (r := r.attach.report t _) (nested_attach hr.nested)
      (by rwa [← attach_region] at hne) _
  · rw [breakOff_of_ne_typeSexpr htype, agenda_of_item (r := (r.attach.report t _).leaveAt _) hx]
    have hsequel : r.region.sequel = [.ascription] := by
      rcases hlist with hreg | hreg | hreg
      · rw [hreg]
        rfl
      · rw [hreg]
        rfl
      · exact absurd hreg htype
    rw [hsequel] at hclosed
    -- the token is no colon, so the list has no type
    have hcolon : t.kind ≠ .colon := by
      intro hk
      rcases hlist with hreg | hreg | hreg <;> simp [hreg, hk, Node.Kind.brokenBy] at hb
    refine hclosed.andThen fun {d'} h => ⟨d', ?_, h⟩
    have hkind : d'.kind ≠ .colon := by rwa [(h.follows.faces ht).kind_eq]
    exact leads_of_perform [] (by rw [perform, if_neg hkind]) trivial

/-- Where both are abreast behind a token, the descent follows the reader. -/
theorem Arrives.descends (h : Arrives source s r' rest agenda) (hne : t.kind ≠ .eof) :
    ∃ d', Leads s (d', agenda) ∧ Follows source r' (left t rest) d' := by
  obtain ⟨d', hleads, habreast⟩ := h
  rw [left_of_ne_eof hne]
  exact ⟨d', hleads, habreast.follows⟩

/-- Comments take no turn. -/
theorem Turn.isTrivia_eq_false (h : Turn t next r r') : t.isTrivia = false := by
  have hkind : t.kind ≠ .lineComment := by
    induction h with
    | breakOff _ _ _ ih => exact ih
    | finish _ _ ht | bareColon _ _ ht | colon _ _ ht | typeName _ ht | typeInteger _ ht _
    | openTypes _ ht | closeTypes _ _ ht | openRange _ ht _ | bound _ _ ht => simp [ht]
    | divide _ ht =>
        intro hk
        simp [Node.Kind.isDividedBy, hk] at ht
    | atom _ _ ht =>
        intro hk
        simp [Token.Kind.isAtom, hk] at ht
    | openList _ _ ht =>
        intro hk
        simp [Token.Kind.opens?, hk] at ht
    | @closeList r _ ht =>
        intro hk
        cases hreg : r.region <;> simp [Node.Kind.closer?, hreg, hk] at ht
    | @stray r _ _ ht _ =>
        intro hk
        cases hreg : r.region <;> simp [Node.Kind.rejects, hreg, hk] at ht
    | dots _ _ ht _ | dotsOnly _ _ ht _ =>
        intro hk
        simp [Token.isDots, hk] at ht
  simpa [Token.isTrivia] using hkind

/-- A token that is an expression is read by both, with the colon behind it in view. -/
theorem Follows.atom (h : Follows source r (t :: rest) d) (ht : t.isTrivia = false)
    (hx : r.expects = .item) (hv : r.region.holdsValues) (hk : t.kind.isAtom)
    (hne : t.kind ≠ .eof) (hnext : rest.find? (!·.isTrivia) = some next) :
    Arrives source (d, r.agenda) ((r.shift t.leafKind t).endValue next) rest
      ((r.shift t.leafKind t).endValue next).agenda := by
  have hfaces := h.faces ht
  have hcalled := (leads_item hx (perform_value hfaces hv (.inl hk))).trans (leads_atom hfaces hk)
  have hplaced : Arrives source _ _ _ (.ascription :: r.waiting) :=
    (h.bump ht hne t.leafKind).after hcalled
  rw [← waiting_shift r t.leafKind t] at hplaced
  exact hplaced.andThen fun h => h.endValue hx (h.faces hnext) rfl

/-- A closer is read by both, with the colon behind it in view. -/
theorem Follows.closeList (h : Follows source r (t :: rest) d) (ht : t.isTrivia = false)
    (hr : r.Ready t) (hx : r.expects = .item) (hk : r.region.closer? = some t.kind)
    (hne : t.kind ≠ .eof) (hnext : rest.find? (!·.isTrivia) = some next) :
    Arrives source (d, r.agenda) ((r.shift t.leafKind t).leave.endValue next) rest
      ((r.shift t.leafKind t).leave.endValue next).agenda := by
  have hlist : r.region = .sexpr ∨ r.region = .variants := by
    unfold Node.Kind.closer? at hk
    split at hk <;> simp_all
  have hnested := nested_shift hr.nested t.leafKind t
  have hreg : (r.shift t.leafKind t).region ≠ .program := by
    rcases hlist with hreg | hreg <;> simp [hreg]
  have houter := outer_ne_nil hnested hreg
  obtain ⟨n, others, hchildren, -⟩ := children_leave hnested hreg
  have hsequel : r.region.sequel ++ r.around =
      .ascription :: (r.shift t.leafKind t).leave.waiting := by
    rw [Reader.leave, waiting_leaveAt houter, around_shift]
    rcases hlist with hreg | hreg <;> rw [hreg] <;> rfl
  have hcalled := leads_item hx (perform_close (h.faces ht) hk)
  rw [hsequel] at hcalled
  have hplaced := (h.bump ht hne t.leafKind).after hcalled
  exact (hplaced.andThen fun h => h.leave houter).andThen fun h =>
    h.endValue hx (h.faces hnext) hchildren

/-- A type that is a node of its own is closed by both. -/
theorem Abreast.leaveType (h : Abreast source r rest d) (hn : Nested r.frames)
    (hr : r.region ≠ .program) :
    Arrives source (d, .leave :: r.around) r.leave.endType rest r.leave.endType.agenda := by
  have houter := outer_ne_nil hn hr
  have hleft : Arrives source (d, .leave :: r.around) r.leave rest r.leave.waiting := by
    rw [Reader.leave, waiting_leaveAt houter]
    exact h.leave houter
  exact hleft.andThen fun h => h.endType (nested_leaveAt hn hr 0)

/-- A token that is a type is read by both. -/
theorem Follows.typeLeaf {kind : Node.Kind} (h : Follows source r (t :: rest) d)
    (ht : t.isTrivia = false) (hr : r.Ready t) (hne : t.kind ≠ .eof)
    (hcalled : Leads (d, r.agenda) (d, .bump kind :: r.waiting)) :
    Arrives source (d, r.agenda) (r.shift kind t).endType rest
      (r.shift kind t).endType.agenda := by
  have hplaced := (h.bump ht hne kind).after hcalled
  rw [← waiting_shift r kind t] at hplaced
  exact hplaced.andThen fun h => h.endType (nested_shift hr.nested kind t)

/-- The last token of a type that is a node of its own is read by both. -/
theorem Follows.typeEnd {kind : Node.Kind} (h : Follows source r (t :: rest) d)
    (ht : t.isTrivia = false) (hr : r.Ready t) (hne : t.kind ≠ .eof) (hreg : r.region ≠ .program)
    (hcalled : Leads (d, r.agenda) (d, .bump kind :: .leave :: r.around)) :
    Arrives source (d, r.agenda) (r.shift kind t).leave.endType rest
      (r.shift kind t).leave.endType.agenda := by
  have hplaced := (h.bump ht hne kind).after hcalled
  rw [← around_shift r kind t] at hplaced
  exact hplaced.andThen fun h => h.leaveType (nested_shift hr.nested kind t) (by rwa [shift_region])

/-- Dots without an upper bound behind them are read by both. -/
theorem Follows.dotsOnly (h : Follows source r (t :: rest) d) (ht : t.isTrivia = false)
    (hr : r.Ready t) (hx : r.expects = .dots) (hreg : r.region = .typeRange)
    (hne : t.kind ≠ .eof) (hn : next.kind ≠ .integer)
    (hnext : rest.find? (!·.isTrivia) = some next) :
    Arrives source (d, r.agenda)
      ((r.shift .opalias t).report next (.missingBefore .rangeBound next)).leave.endType rest
      ((r.shift .opalias t).report next (.missingBefore .rangeBound next)).leave.endType.agenda
      := by
  have hagenda : r.agenda = .bump .opalias :: .upperBound :: .leave :: r.around := by
    rw [agenda, hx, waiting, hreg]
    rfl
  have hplaced : Arrives source (d, r.agenda) _ rest (.upperBound :: .leave :: r.around) :=
    hagenda ▸ h.bump ht hne .opalias
  rw [← around_shift r .opalias t] at hplaced
  refine hplaced.andThen fun h => ?_
  have hfaces := h.faces hnext
  have hne : (r.shift .opalias t).region ≠ .program := by simp [hreg]
  exact ((h.report hfaces (.missingBefore .rangeBound next)).leaveType
    (nested_shift hr.nested _ t) hne).after (leads_noBound hfaces hn)

/-- **A turn descends.** The routines do what the reader does in its turn, and call for nothing that
is not there. -/
theorem Turn.descends (h : Turn t next r r') (hr : r.Ready t)
    (hnext : t.kind ≠ .eof → rest.find? (!·.isTrivia) = some next)
    (hf : Follows source r (t :: rest) d) :
    ∃ d', Leads (d, r.agenda) (d', r'.agenda) ∧ Follows source r' (left t rest) d' := by
  have ht := h.isTrivia_eq_false
  induction h generalizing d with
  | @breakOff r r' wanted hx hb _ ih =>
      obtain ⟨d₁, hbroken, h₁⟩ := hf.breakOff ht hr hx hb
      obtain ⟨d₂, hleads, h₂⟩ := ih (ready_breakOff hr hx hb).1 h₁.follows
      exact ⟨d₂, hbroken.trans hleads, h₂⟩
  | @finish r hx hreg hk =>
      rw [left, if_pos hk, agenda_of_item (r := r.attach) hx, waiting_attach, ← agenda_of_item hx]
      exact ⟨d, .refl, hf.attach⟩
  | @divide r hx hk =>
      have hne : t.kind ≠ .eof := by
        intro h
        simp [h, Node.Kind.isDividedBy] at hk
      rw [agenda_of_item (r := r.shift _ t) hx, waiting_shift]
      exact ((hf.bump ht hne t.leafKind).after
        (leads_item hx (perform_divide (hf.faces ht) hk))).descends hne
  | @atom r hx hv hk =>
      have hne : t.kind ≠ .eof := by
        intro h
        simp [h, Token.Kind.isAtom] at hk
      exact (hf.atom ht hx hv hk hne (hnext hne)).descends hne
  | @openList r kind hx hv hk =>
      have hne : t.kind ≠ .eof := by
        intro h
        simp [h, Token.Kind.opens?] at hk
      have hfaces := hf.faces ht
      rw [agenda_of_item (r := (r.enter kind t).shift _ t) hx, waiting_shift, waiting_enter]
      exact ((hf.enterBump ht hne kind t.leafKind).after
        ((leads_item hx (perform_value hfaces hv (.inr (.inl ⟨kind, hk⟩)))).trans
          (leads_list hfaces hk))).descends hne
  | @closeList r hx hk =>
      have hne : t.kind ≠ .eof := by
        intro h
        cases hreg : r.region <;> simp [h, hreg, Node.Kind.closer?] at hk
      exact (hf.closeList ht hr hx hk hne (hnext hne)).descends hne
  | @stray r problem hx hk hp =>
      have hne : t.kind ≠ .eof := by
        intro h
        cases hreg : r.region <;> simp [h, hreg, Node.Kind.rejects] at hk
      rw [hp, agenda_of_item (r := r.reject t _) hx, waiting_reject]
      exact ((hf.reject ht hne (r.region.objection t)).after
        (leads_item hx (perform_stray (hf.faces ht) hk))).descends hne
  | @bareColon r hx hv hk =>
      have hne : t.kind ≠ .eof := by simp [hk]
      have hfaces := hf.faces ht
      have hplaced : Arrives source (d, r.agenda) (r.reject t .bareColon) rest
          (.type :: r.waiting) :=
        (hf.reject ht hne .bareColon).after
          ((leads_item hx (perform_value hfaces hv (.inr (.inr hk)))).trans
            (leads_bareColon hfaces hk))
      rw [← waiting_reject r t .bareColon] at hplaced
      exact (hplaced.andThen fun h =>
        h.awaitType (nested_shift hr.nested _ t) (h.faces (hnext hne))).descends hne
  | @colon r hx hreg hk =>
      have hne : t.kind ≠ .eof := by simp [hk]
      have hplaced : Arrives source (d, r.agenda) (r.shift .colon t) rest (.type :: r.waiting) := by
        rw [Reader.agenda, hx]
        exact hf.bump ht hne .colon
      rw [← waiting_shift r .colon t] at hplaced
      exact (hplaced.andThen fun h =>
        h.awaitType (nested_shift hr.nested _ t) (h.faces (hnext hne))).descends hne
  | @typeName r hawaits hk =>
      have hne : t.kind ≠ .eof := by simp [hk]
      have hfaces := hf.faces ht
      exact (hf.typeLeaf ht hr hne ((hawaits.leads hfaces (by rw [hk]; rfl)).trans
        (leads_typeName hfaces hk))).descends hne
  | @typeInteger r hawaits hk hn =>
      have hne : t.kind ≠ .eof := by simp [hk]
      have hfaces := hf.faces ht
      exact (hf.typeLeaf ht hr hne ((hawaits.leads hfaces (by rw [hk]; rfl)).trans
        (leads_typeInteger hfaces hk (hf.ahead_one ht hne (hnext hne)) hn))).descends hne
  | @openTypes r hawaits hk =>
      have hne : t.kind ≠ .eof := by simp [hk]
      have hfaces := hf.faces ht
      have hplaced := (hf.enterBump ht hne .typeSexpr .openParen).after
        ((hawaits.leads hfaces (by rw [hk]; rfl)).trans (leads_types hfaces hk))
      have hagenda : ({ (r.enter .typeSexpr t).shift .openParen t with expects := .item }).agenda =
          .typeItems :: r.waiting := by
        show ((r.enter .typeSexpr t).shift .openParen t).waiting = _
        rw [waiting_shift, waiting_enter]
        rfl
      rw [hagenda]
      exact (hplaced.expect .item).descends hne
  | @closeTypes r hx hreg hk =>
      have hne : t.kind ≠ .eof := by simp [hk]
      have hcalled : Leads (d, r.agenda) (d, .bump .closeParen :: .leave :: r.around) := by
        have hp : d.perform r.region.goesOn = (d, [.bump .closeParen, .leave]) := by
          simp only [hreg, Node.Kind.goesOn, perform, (hf.faces ht).kind_eq, hk]
        have hitem := leads_item hx hp
        rwa [hreg] at hitem
      exact (hf.typeEnd ht hr hne (by simp [hreg]) hcalled).descends hne
  | @openRange r hawaits hk hn =>
      have hne : t.kind ≠ .eof := by simp [hk]
      have hfaces := hf.faces ht
      have hplaced := (hf.enterBump ht hne .typeRange .integer).after
        ((hawaits.leads hfaces (by rw [hk]; rfl)).trans
          (leads_range hfaces hk (hf.ahead_one ht hne (hnext hne)) hn))
      have hagenda : ({ (r.enter .typeRange t).shift .integer t with expects := .dots }).agenda =
          .bump .opalias :: .upperBound :: .leave :: r.waiting := by
        show _ ++ ((r.enter .typeRange t).shift .integer t).waiting = _
        rw [waiting_shift, waiting_enter]
        rfl
      rw [hagenda]
      exact (hplaced.expect .dots).descends hne
  | @dots r hx hreg hk hn =>
      have hne : t.kind ≠ .eof := by
        intro h
        simp [h, Token.isDots] at hk
      have hplaced : Arrives source (d, r.agenda) (r.shift .opalias t) rest
          (.upperBound :: r.waiting) := by
        rw [Reader.agenda, hx]
        exact hf.bump ht hne .opalias
      rw [← waiting_shift r .opalias t] at hplaced
      exact (hplaced.expect .bound).descends hne
  | @dotsOnly r hx hreg hk hn =>
      have hne : t.kind ≠ .eof := by
        intro h
        simp [h, Token.isDots] at hk
      exact (hf.dotsOnly ht hr hx hreg hne hn (hnext hne)).descends hne
  | @bound r hx hreg hk =>
      have hne : t.kind ≠ .eof := by simp [hk]
      have hagenda : r.agenda = .upperBound :: .leave :: r.around := by
        rw [Reader.agenda, hx, waiting, hreg]
        rfl
      refine (hf.typeEnd ht hr hne (by simp [hreg]) ?_).descends hne
      rw [hagenda]
      exact leads_bound (hf.faces ht) hk

end Reader

end GolfAssist
