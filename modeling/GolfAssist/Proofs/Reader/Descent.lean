import GolfAssist.Proofs.Layout
import Mathlib.Data.List.TakeWhile
import Mathlib.Logic.Relation

/-!
# Reading by descent

* `Descent` — the state of a reading that goes by routines: all tokens of the source, a position
  among them, the tree so far, the messages so far, and where the newest leaf ends.
* `Task` — the routines, one for each form of the grammar, and the moves that they are made of.
* `Descent.perform` — what a task does at once, and the tasks that it leaves to be done next.
* `Descent.Steps` — the first task of an agenda is performed, again and again. Behind it stand the
  tasks that wait for it, so the agenda is what the routines that have been called still have to do.
* `Descent.Steady` — what every step keeps: the position stays in front of the end of the source,
  and the open node reaches as far as the newest leaf.

A reader takes one token a step, so that it comes to an end. Routines look at the next token without
using it up, call one another, and some return with nothing done; that they come to an end is a
statement about all of them together. Every routine has all its branches here, also those for tokens
it is never called with.
-/

namespace GolfAssist

/-! ## Tasks -/

/-- What a reading by descent has to do. -/
inductive Task where
  /-- The rest of the program. -/
  | program
  /-- An expression, with its type. -/
  | expr
  /-- The type of the expression that has been read, if a colon follows. -/
  | ascription
  /-- The colon and the type of the expression that has been read. -/
  | annotate
  /-- A list in parentheses. -/
  | sexpr
  /-- The rest of a list in parentheses. -/
  | sexprItems
  /-- Alternatives in braces. -/
  | variants
  /-- The rest of alternatives in braces. -/
  | variantsItems
  /-- A type. -/
  | type
  /-- A list of types in parentheses. -/
  | typeSexpr
  /-- The rest of a list of types. -/
  | typeItems
  /-- A range, or an integer that is a type. -/
  | rangeOrInteger
  /-- The upper bound of a range. -/
  | upperBound
  /-- The comments in front of the next token are placed. -/
  | flush
  /-- The next token is placed as a leaf. -/
  | bump (kind : Node.Kind)
  /-- The next token is reported. -/
  | report (message : String)
  /-- The next token is reported and placed as an error. -/
  | reject (message : String)
  /-- A node is opened in front of the next token. -/
  | enter (kind : Node.Kind)
  /-- The open node is closed at an offset. -/
  | leaveAt (stop : Nat)
  /-- The open node is closed behind the newest leaf. -/
  | leave
  /-- The open node is closed in front of the next token, and what it wants is reported there. -/
  | breakOff (wanted : String)
deriving DecidableEq, Repr

/-- The token as a message names it. -/
def Token.described (t : Token) : String :=
  if t.kind = .eof then "end of input" else "`" ++ t.text ++ "`"

/-- The state of a reading by descent. -/
structure Descent where
  /-- All tokens of the source. -/
  tokens : List Token
  /-- How many of them have been used up. -/
  pos : Nat
  /-- The tree so far. -/
  builder : Builder
  /-- What has been reported, the newest first. -/
  diagnostics : List Diagnostic
  /-- The end of the newest leaf, or 0. -/
  lastEnd : Nat
deriving Repr

namespace Descent

/-- Nothing of the source has been read. -/
def start (source : String) : Descent :=
  ⟨Token.lex source, 0, .start (Text.byteLength source.toList), [], 0⟩

/-! ## Looking ahead -/

/-- The tokens that have not been used up. -/
def rest (d : Descent) : List Token := d.tokens.drop d.pos

/-- The index of the `n`-th token that is no comment, where `index` is that of the first token. The
end of the source is not passed over. There is no index if the tokens run out. -/
def seek : (n index : Nat) → List Token → Option Nat
  | _, _, [] => none
  | n, index, t :: tokens =>
    if t.kind = .eof then some index
    else if t.isTrivia then seek n (index + 1) tokens
    else
      match n with
      | 0 => some index
      | n + 1 => seek n (index + 1) tokens

/-- The index of the `n`-th token ahead that is no comment, unless the tokens run out. -/
def index? (d : Descent) (n : Nat) : Option Nat := seek n d.pos d.rest

/-- The `n`-th token ahead that is no comment; the last token of all if the tokens run out. -/
def ahead (d : Descent) (n : Nat) : Option Token :=
  d.tokens[(d.index? n).getD (d.tokens.length - 1)]?

/-- The sort of the `n`-th token ahead. -/
def kindAhead (d : Descent) (n : Nat) : Token.Kind := (d.ahead n).elim .eof (·.kind)

/-- The text of the `n`-th token ahead. -/
def textAhead (d : Descent) (n : Nat) : String := (d.ahead n).elim "" (·.text)

/-- The sort of the next token. -/
def kind (d : Descent) : Token.Kind := d.kindAhead 0

/-- The place of the next token. -/
def span (d : Descent) : Span :=
  (d.ahead 0).elim ⟨d.builder.length, d.builder.length⟩ (·.span)

/-- The next token as a message names it. -/
def describe (d : Descent) : String :=
  if d.kind = .eof then "end of input" else "`" ++ d.textAhead 0 ++ "`"

/-! ## Moves -/

/-- The token is used up and placed as a leaf. -/
def place (d : Descent) (kind : Node.Kind) (t : Token) : Descent :=
  { d with pos := d.pos + 1, builder := d.builder.leaf kind t.span, lastEnd := t.stop }

/-- The comments in front of the next token are placed. -/
def flush (d : Descent) : Descent :=
  (d.rest.takeWhile (·.isTrivia)).foldl (·.place .lineComment ·) d

/-- The next token is placed. The end of the source is never used up. -/
def bump (d : Descent) (kind : Node.Kind) : Descent :=
  let d := d.flush
  match d.tokens[d.pos]? with
  | none => d
  | some t => if t.kind = .eof then d else d.place kind t

/-- The next token is reported. -/
def report (d : Descent) (message : String) : Descent :=
  { d with diagnostics := ⟨message, d.span⟩ :: d.diagnostics }

/-- A node is opened where the next token starts. The comments in front of it stay outside. -/
def enter (d : Descent) (kind : Node.Kind) : Descent :=
  let d := d.flush
  { d with builder := d.builder.enter kind d.span.start }

/-- The open node is closed at an offset, or further on where its children reach further. -/
def leaveAt (d : Descent) (stop : Nat) : Descent := { d with builder := d.builder.leave stop }

/-! ## Routines -/

/-- What a task does at once, and the tasks that it leaves to be done next. -/
def perform (d : Descent) : Task → Descent × List Task
  | .program =>
    match d.kind with
    | .eof => (d, [.flush])
    | .semicolon => (d, [.bump .semicolon, .program])
    | .closeParen | .closeBrace | .slash =>
      (d, [.reject ("unexpected " ++ d.describe), .program])
    | _ => (d, [.expr, .program])
  | .expr =>
    match d.kind with
    | .variable => (d, [.bump .variable, .ascription])
    | .integer => (d, [.bump .integer, .ascription])
    | .string => (d, [.bump .string, .ascription])
    | .word => (d, [.bump (.ofWord (d.textAhead 0)), .ascription])
    | .op => (d, [.bump .opalias, .ascription])
    | .openParen => (d, [.sexpr, .ascription])
    | .openBrace => (d, [.variants, .ascription])
    -- a type without a value is still read as a type
    | .colon => (d, [.reject "expected expression before `:`", .type])
    | .unknown => (d, [.bump .error, .ascription])
    | .eof => (d, [.report "expected expression, found end of input"])
    | _ => (d, [.reject ("expected expression, found " ++ d.describe)])
  | .ascription => if d.kind = .colon then (d, [.annotate]) else (d, [])
  | .annotate =>
    match d.builder.wrap? .typedExpr with
    | none => (d, [.reject "expected expression before `:`"])
    | some builder => ({ d with builder }, [.bump .colon, .type, .leave])
  | .sexpr => (d, [.enter .sexpr, .bump .openParen, .sexprItems])
  | .sexprItems =>
    match d.kind with
    | .closeParen => (d, [.bump .closeParen, .leave])
    | .eof | .closeBrace => (d, [.breakOff "`)`"])
    | .semicolon => (d, [.bump .semicolon, .sexprItems])
    | .slash => (d, [.reject "unexpected `/` outside of `\x7b \x7d`", .sexprItems])
    | _ => (d, [.expr, .sexprItems])
  | .variants => (d, [.enter .variants, .bump .openBrace, .variantsItems])
  | .variantsItems =>
    match d.kind with
    | .closeBrace => (d, [.bump .closeBrace, .leave])
    | .eof | .closeParen => (d, [.breakOff "`\x7d`"])
    | .slash => (d, [.bump .slash, .variantsItems])
    | .semicolon => (d, [.bump .semicolon, .variantsItems])
    | _ => (d, [.expr, .variantsItems])
  | .type =>
    match d.kind with
    | .word => (d, [.bump .typeName])
    | .openParen => (d, [.typeSexpr])
    | .integer => (d, [.rangeOrInteger])
    | _ => (d, [.report ("expected type, found " ++ d.describe)])
  | .typeSexpr => (d, [.enter .typeSexpr, .bump .openParen, .typeItems])
  | .typeItems =>
    match d.kind with
    | .closeParen => (d, [.bump .closeParen, .leave])
    | .eof | .closeBrace | .slash | .semicolon => (d, [.breakOff "`)`"])
    | .word | .openParen | .integer => (d, [.type, .typeItems])
    | _ => (d, [.reject ("expected type, found " ++ d.describe), .typeItems])
  | .rangeOrInteger =>
    if d.kindAhead 1 = .op ∧ d.textAhead 1 = ".." then
      (d, [.enter .typeRange, .bump .integer, .bump .opalias, .upperBound, .leave])
    else (d, [.bump .integer])
  | .upperBound =>
    if d.kind = .integer then (d, [.bump .integer])
    else (d, [.report ("expected range bound, found " ++ d.describe)])
  | .flush => (d.flush, [])
  | .bump kind => (d.bump kind, [])
  | .report message => (d.report message, [])
  | .reject message => (d, [.report message, .bump .error])
  | .enter kind => (d.enter kind, [])
  | .leaveAt stop => (d.leaveAt stop, [])
  | .leave => (d, [.leaveAt d.lastEnd])
  | .breakOff wanted =>
    let d := d.flush
    (d, [.report ("expected " ++ wanted ++ ", found " ++ d.describe), .leaveAt d.span.start])

/-- The first task of the agenda is performed, unless nothing is left to do. -/
def step? : Descent × List Task → Option (Descent × List Task)
  | (_, []) => none
  | (d, task :: agenda) => some ((d.perform task).1, (d.perform task).2 ++ agenda)

/-- Any number of steps. -/
def Steps : Descent × List Task → Descent × List Task → Prop :=
  Relation.ReflTransGen fun s s' => step? s = some s'

/-- The state after a number of steps, or after all that can be made. -/
def run : Nat → Descent × List Task → Descent × List Task
  | 0, s => s
  | n + 1, s => (step? s).elim s (run n)

/-! ## What is ahead -/

variable {source : String} {d d' : Descent} {t next : Token} {comments later : List Token}
  {s s' : Descent × List Task}

/-- The next token that is no comment is the given one. -/
def Faces (d : Descent) (t : Token) : Prop := d.rest.find? (!·.isTrivia) = some t

/-- Behind comments, the next token is faced. -/
theorem faces_of_split (h : d.rest = comments ++ t :: later) (hc : ∀ c ∈ comments, c.isTrivia)
    (ht : t.isTrivia = false) : d.Faces t :=
  List.find?_eq_some_iff_append.mpr ⟨by simp [ht], comments, later, h, by simpa using hc⟩

/-- A search finds an end of the source at the latest. -/
theorem isSome_seek {tokens : List Token} (h : ∃ t ∈ tokens, t.kind = .eof) (n index : Nat) :
    (seek n index tokens).isSome := by
  obtain ⟨e, he, hk⟩ := h
  induction tokens generalizing n index with
  | nil => cases he
  | cons t tokens ih =>
      unfold seek
      by_cases ht : t.kind = .eof
      · simp [ht]
      · have he : e ∈ tokens := by
          rcases List.mem_cons.mp he with rfl | he
          · exact absurd hk ht
          · exact he
        rw [if_neg ht]
        split
        · exact ih _ _ he
        · split
          · rfl
          · exact ih _ _ he

/-- The first token that is no comment is found where it stands. -/
theorem exists_seek_zero {tokens : List Token} (h : tokens.find? (!·.isTrivia) = some t)
    (index : Nat) : ∃ i, seek 0 index tokens = some (index + i) ∧ tokens[i]? = some t := by
  induction tokens generalizing index with
  | nil => cases h
  | cons u tokens ih =>
      unfold seek
      by_cases hu : u.isTrivia
      · have hk : u.kind ≠ .eof := by
          intro hk
          simp [Token.isTrivia, hk] at hu
        rw [List.find?_cons_of_neg (by simp [hu])] at h
        obtain ⟨i, hseek, hget⟩ := ih h (index + 1)
        refine ⟨i + 1, ?_, hget⟩
        rw [if_neg hk, if_pos hu, hseek]
        congr 1
        omega
      · rw [List.find?_cons_of_pos (by simp [hu])] at h
        refine ⟨0, ?_, h⟩
        rw [if_neg hu]
        split <;> rfl

/-- The token that a search finds is the one ahead. -/
theorem ahead_of_index? {n i : Nat} (h : d.index? n = some (d.pos + i)) :
    d.ahead n = d.rest[i]? := by
  unfold ahead rest
  rw [h, List.getElem?_drop]
  rfl

/-- The token that is faced is the next one ahead. -/
theorem Faces.ahead_eq (h : d.Faces t) : d.ahead 0 = some t := by
  obtain ⟨i, hseek, hget⟩ := exists_seek_zero h d.pos
  exact (ahead_of_index? hseek).trans hget

/-- Behind the next token, unless it is the end of the source, comes the one after it. -/
theorem ahead_one (h : d.rest = comments ++ t :: later) (hc : ∀ c ∈ comments, c.isTrivia)
    (ht : t.isTrivia = false) (hne : t.kind ≠ .eof)
    (hnext : later.find? (!·.isTrivia) = some next) : d.ahead 1 = some next := by
  have hseek : ∀ (comments : List Token) (index : Nat), (∀ c ∈ comments, c.isTrivia) →
      seek 1 index (comments ++ t :: later) = seek 0 (index + comments.length + 1) later := by
    intro comments
    induction comments with
    | nil =>
        intro index _
        rw [List.nil_append, seek, if_neg hne, if_neg (by simp [ht])]
        rfl
    | cons c comments ih =>
        intro index hc
        have htrivia := hc c List.mem_cons_self
        have hk : c.kind ≠ .eof := by
          intro hk
          simp [Token.isTrivia, hk] at htrivia
        rw [List.cons_append, seek, if_neg hk, if_pos htrivia,
          ih _ fun u hu => hc u (List.mem_cons_of_mem _ hu), List.length_cons]
        congr 1
        omega
  obtain ⟨i, hfound, hget⟩ := exists_seek_zero hnext (d.pos + comments.length + 1)
  have hindex : d.index? 1 = some (d.pos + (comments.length + (i + 1))) := by
    rw [index?, h, hseek comments d.pos hc, hfound]
    congr 1
    omega
  rw [ahead_of_index? hindex, h, List.getElem?_append_right (Nat.le_add_right _ _),
    Nat.add_sub_cancel_left, List.getElem?_cons_succ, hget]

theorem Faces.kind_eq (h : d.Faces t) : d.kind = t.kind := by
  rw [kind, kindAhead, h.ahead_eq]
  rfl

theorem Faces.text_eq (h : d.Faces t) : d.textAhead 0 = t.text := by
  rw [textAhead, h.ahead_eq]
  rfl

theorem Faces.span_eq (h : d.Faces t) : d.span = t.span := by
  rw [span, h.ahead_eq]
  rfl

theorem Faces.describe_eq (h : d.Faces t) : d.describe = t.described := by
  rw [describe, h.kind_eq, h.text_eq]
  rfl

/-! ## What the moves do -/

/-- A token that is placed is used up. -/
theorem rest_place (h : d.rest = t :: later) (kind : Node.Kind) :
    (d.place kind t).rest = later := by
  have htail : (d.place kind t).rest = d.rest.tail := List.tail_drop.symm
  rw [htail, h]
  rfl

/-- Comments are placed one after the other, and nothing is reported. -/
theorem foldl_place (h : d.rest = comments ++ later) :
    (comments.foldl (·.place .lineComment ·) d).rest = later ∧
      (comments.foldl (·.place .lineComment ·) d).builder =
        comments.foldl (fun b c => b.leaf .lineComment c.span) d.builder ∧
      (comments.foldl (·.place .lineComment ·) d).diagnostics = d.diagnostics := by
  induction comments generalizing d with
  | nil => exact ⟨h, rfl, rfl⟩
  | cons c comments ih => exact ih (rest_place h _)

/-- Just the comments in front of the next token are flushed. -/
theorem flush_eq (h : d.rest = comments ++ t :: later) (hc : ∀ c ∈ comments, c.isTrivia)
    (ht : t.isTrivia = false) : d.flush = comments.foldl (·.place .lineComment ·) d := by
  rw [flush, h, List.takeWhile_append_of_pos hc, List.takeWhile_cons_of_neg (by simp [ht]),
    List.append_nil]

/-- A token that is no end of the source is placed behind the comments. -/
theorem bump_eq (h : d.flush.rest = t :: later) (ht : t.kind ≠ .eof) (kind : Node.Kind) :
    d.bump kind = d.flush.place kind t := by
  have hget : d.flush.tokens[d.flush.pos]? = some t := by
    have hhead : d.flush.rest[0]? = some t := by
      rw [h]
      rfl
    rwa [rest, List.getElem?_drop] at hhead
  unfold bump
  dsimp only
  rw [hget]
  exact if_neg ht

/-! ## What a task can do to the state -/

/-- What can happen to the state of a reading by descent. -/
inductive Effect : Descent → Descent → Prop where
  /-- The first token that is left, which is not the end of the source, becomes a leaf. -/
  | place {d : Descent} {t : Token} {later : List Token} (kind : Node.Kind)
      (h : d.rest = t :: later) (ht : t.kind ≠ .eof) : Effect d (d.place kind t)
  /-- The next token is reported. -/
  | report {d : Descent} (message : String) : Effect d (d.report message)
  /-- A node is opened where the next token starts. -/
  | enter {d : Descent} (kind : Node.Kind) :
      Effect d { d with builder := d.builder.enter kind d.span.start }
  /-- The open node is closed. -/
  | leaveAt {d : Descent} (stop : Nat) : Effect d (d.leaveAt stop)
  /-- The newest child of the open node is wrapped. -/
  | wrap {d : Descent} {builder : Builder} (h : d.builder.wrap? .typedExpr = some builder) :
      Effect d { d with builder }

/-- What can happen to the state, any number of times. -/
def Effects : Descent → Descent → Prop := Relation.ReflTransGen Effect

/-- Comments become leaves. -/
theorem flush_effects (d : Descent) : Effects d d.flush := by
  have hplace : ∀ (comments : List Token) {d : Descent} {later : List Token},
      d.rest = comments ++ later → (∀ c ∈ comments, c.isTrivia) →
      Effects d (comments.foldl (·.place .lineComment ·) d) := by
    intro comments
    induction comments with
    | nil =>
        intro d later _ _
        exact .refl
    | cons c comments ih =>
        intro d later h hc
        have hk : c.kind ≠ .eof := by
          intro hk
          have htrivia := hc c List.mem_cons_self
          simp [Token.isTrivia, hk] at htrivia
        exact .head (.place _ h hk)
          (ih (rest_place h _) fun u hu => hc u (List.mem_cons_of_mem _ hu))
  exact hplace _ List.takeWhile_append_dropWhile.symm fun _ => List.mem_takeWhile_imp

/-- A token becomes a leaf, or none does at the end of the source. -/
theorem bump_effects (d : Descent) (kind : Node.Kind) : Effects d (d.bump kind) := by
  unfold bump
  dsimp only
  split
  · exact d.flush_effects
  · rename_i t hget
    split
    · exact d.flush_effects
    · rename_i ht
      have hrest : ∃ later, d.flush.rest = t :: later := by
        obtain ⟨hlt, rfl⟩ := List.getElem?_eq_some_iff.mp hget
        exact ⟨_, List.drop_eq_getElem_cons hlt⟩
      obtain ⟨later, hrest⟩ := hrest
      exact d.flush_effects.tail (.place kind hrest ht)

/-- **What a task can do.** It has no effects but these. -/
theorem perform_effects (d : Descent) (task : Task) : Effects d (d.perform task).1 := by
  cases task with
  | flush => exact d.flush_effects
  | bump kind => exact d.bump_effects kind
  | report message => exact .single (.report message)
  | enter kind => exact d.flush_effects.tail (.enter kind)
  | leaveAt stop => exact .single (.leaveAt stop)
  | breakOff wanted => exact d.flush_effects
  | annotate =>
      rw [perform]
      split
      · exact .refl
      · exact .single (.wrap ‹_›)
  | program | expr | ascription | sexprItems | variantsItems | type | typeItems | rangeOrInteger
  | upperBound =>
      rw [perform]
      split <;> exact .refl
  | sexpr | variants | typeSexpr | reject message | leave => exact .refl

/-! ## Steps -/

/-- What every effect keeps, any number of steps keeps. -/
theorem Steps.keeps {I : Descent → Prop} (effect : ∀ {d d'}, Effect d d' → I d → I d')
    (h : Steps s s') (hs : I s.1) : I s'.1 := by
  have heffects : ∀ {d d'}, Effects d d' → I d → I d' := by
    intro d d' h hd
    induction h with
    | refl => exact hd
    | tail _ hact ih => exact effect hact ih
  induction h with
  | refl => exact hs
  | @tail s s' _ hstep ih =>
      obtain ⟨d, agenda⟩ := s
      cases agenda with
      | nil => cases hstep
      | cons task agenda =>
          cases hstep
          exact heffects (d.perform_effects task) ih

/-- Tokens are used up from the front. -/
theorem Steps.rest_suffix (h : Steps s s') : s'.1.rest <:+ s.1.rest := by
  refine h.keeps (I := fun d => d.rest <:+ s.1.rest) ?_ (List.suffix_refl _)
  intro d d' heffect hd
  cases heffect with
  | place kind hrest _ =>
      rw [rest_place hrest]
      rw [hrest] at hd
      exact (List.suffix_cons _ _).trans hd
  | report | enter | leaveAt | wrap => exact hd

/-- What has been reported stays reported. -/
theorem Steps.diagnostics_suffix (h : Steps s s') : s.1.diagnostics <:+ s'.1.diagnostics := by
  refine h.keeps (I := fun d => s.1.diagnostics <:+ d.diagnostics) ?_ (List.suffix_refl _)
  intro d d' heffect hd
  cases heffect with
  | report message => exact hd.trans (List.suffix_cons _ _)
  | place | enter | leaveAt | wrap => exact hd

/-- There is one way to go on. -/
theorem step?_rightUnique :
    Relator.RightUnique fun s s' : Descent × List Task => step? s = some s' :=
  fun _ _ _ h h' => Option.some.inj (h.symm.trans h')

/-- A reading that comes to an end does so from every state on its way. -/
theorem Steps.to_end (h : Steps s s') (hend : Steps s (d, [])) : Steps s' (d, []) := by
  rcases Relation.ReflTransGen.total_of_right_unique step?_rightUnique h hend with h | h
  · exact h
  · rcases Relation.ReflTransGen.cases_head h with rfl | ⟨_, hstep, _⟩
    · exact .refl
    · cases hstep

/-- What waits behind an agenda does not count for the steps that perform the agenda. -/
theorem Steps.append {agenda agenda' : List Task} (h : Steps (d, agenda) (d', agenda'))
    (waiting : List Task) : Steps (d, agenda ++ waiting) (d', agenda' ++ waiting) := by
  generalize hs : (d, agenda) = s at h
  induction h using Relation.ReflTransGen.head_induction_on generalizing d agenda with
  | refl =>
      cases hs
      exact .refl
  | head hstep _ ih =>
      subst hs
      cases agenda with
      | nil => cases hstep
      | cons task agenda =>
          cases hstep
          have hrest := ih rfl
          rw [List.append_assoc] at hrest
          exact .head rfl hrest

/-- **Calls return.** If all is done in the end, then what stands first on the agenda is done
without a look at the tasks that wait for it. -/
theorem Steps.exists_return {e : Descent} {agenda waiting : List Task}
    (h : Steps (d, agenda ++ waiting) (e, [])) : ∃ d', Steps (d, agenda) (d', []) := by
  generalize hs : (d, agenda ++ waiting) = s at h
  -- the induction is on the steps that are left, for all agendas in front of `waiting`
  induction h using Relation.ReflTransGen.head_induction_on generalizing d agenda with
  | refl =>
      obtain ⟨rfl, happend⟩ := Prod.mk.inj hs
      obtain ⟨rfl, rfl⟩ := List.append_eq_nil_iff.mp happend
      exact ⟨_, .refl⟩
  | head hstep _ ih =>
      subst hs
      cases agenda with
      | nil => exact ⟨d, .refl⟩
      | cons task agenda =>
          cases hstep
          have hsplit : ((d.perform task).1, (d.perform task).2 ++ agenda ++ waiting) =
              ((d.perform task).1, (d.perform task).2 ++ (agenda ++ waiting)) := by
            rw [List.append_assoc]
          obtain ⟨d', hreturn⟩ := ih hsplit
          exact ⟨d', .head rfl hreturn⟩

/-- Running is making steps. -/
theorem steps_run (n : Nat) (s : Descent × List Task) : Steps s (run n s) := by
  induction n generalizing s with
  | zero => exact .refl
  | succ n ih =>
      rw [run]
      cases hstep : step? s with
      | none => exact .refl
      | some s' => exact .head hstep (ih s')

/-- A task that a run comes to is reached by steps. -/
theorem exists_steps_of_run (task : Task) (n : Nat) (h : (run n s).2.head? = some task) :
    ∃ waiting, Steps s ((run n s).1, task :: waiting) := by
  obtain ⟨waiting, hagenda⟩ := List.head?_eq_some_iff.mp h
  refine ⟨waiting, ?_⟩
  rw [← hagenda]
  exact steps_run n s

end Descent

/-! ## Steady readings -/

namespace Frame

/-- Where the newest child of an open node ends, or where the node starts. -/
def front (f : Frame) : Nat := f.children.head?.elim f.start (·.span.stop)

/-- A node that is closed ends behind its newest child. -/
theorem front_le_close (f : Frame) (stop : Nat) : f.front ≤ (f.close stop).span.stop := by
  show f.front ≤ max (max stop f.reach) f.start
  unfold front
  cases hc : f.children with
  | nil =>
      rw [List.head?_nil, Option.elim_none]
      omega
  | cons n ns =>
      have hreach := f.stop_le_reach (n := n) (by rw [hc]; exact List.mem_cons_self)
      rw [List.head?_cons, Option.elim_some]
      omega

/-- An end in front of where the newest child ends does not count. -/
theorem close_eq_of_le_front {f : Frame} {stop : Nat} (h : stop ≤ f.front) :
    f.close stop = f.close 0 := by
  have hfront := f.front_le_close 0
  have hmax : max (max stop f.reach) f.start = max (max 0 f.reach) f.start := by
    have hle : stop ≤ max (max 0 f.reach) f.start := Nat.le_trans h hfront
    omega
  unfold close
  rw [hmax]

end Frame

namespace Descent

variable {source : String} {d d' : Descent} {s s' : Descent × List Task}

/-- What is true of every state of a reading by descent. -/
structure Steady (source : String) (d : Descent) : Prop where
  /-- The tokens are those of the source. -/
  tokens : d.tokens = Token.lex source
  /-- They are never all used up. -/
  left : d.rest ≠ []
  /-- The newest leaf ends in front of all tokens that are left. -/
  behind : ∀ t ∈ d.rest, d.lastEnd ≤ t.start
  /-- The open node reaches as far as the newest leaf. -/
  covered : d.lastEnd ≤ d.builder.top.front

/-- At the start nothing is used up. -/
theorem steady_start (source : String) : (start source).Steady source :=
  ⟨rfl, by simp [rest, start, Token.lex], fun _ _ => Nat.zero_le _, Nat.zero_le _⟩

namespace Steady

/-- The tokens that are left are the last ones of the source. -/
theorem rest_suffix (h : d.Steady source) : d.rest <:+ Token.lex source := by
  rw [← h.tokens]
  exact List.drop_suffix _ _

/-- The end of the source is left, as the last token of all. -/
theorem exists_body (h : d.Steady source) :
    ∃ body, d.rest = body ++ [.ending (Text.byteLength source.toList)] := by
  rcases List.suffix_concat_iff.mp h.rest_suffix with hnil | ⟨body, hbody, -⟩
  · exact absurd hnil h.left
  · exact ⟨body, hbody⟩

/-- The end of the source is left. -/
theorem ending_mem_rest (h : d.Steady source) :
    .ending (Text.byteLength source.toList) ∈ d.rest := by
  obtain ⟨body, hbody⟩ := h.exists_body
  rw [hbody]
  exact List.mem_append_right _ List.mem_cons_self

/-- The position is one of the list. -/
theorem pos_lt (h : d.Steady source) : d.pos < d.tokens.length := by
  have hleft := h.left
  unfold rest at hleft
  rw [ne_eq, List.drop_eq_nil_iff] at hleft
  omega

/-- No search ahead runs out of tokens. -/
theorem isSome_index? (h : d.Steady source) (n : Nat) : (d.index? n).isSome :=
  isSome_seek ⟨_, h.ending_mem_rest, rfl⟩ _ _

/-- There is a next token. -/
theorem exists_faces (h : d.Steady source) : ∃ t ∈ d.rest, d.Faces t := by
  have hfound : (d.rest.find? (!·.isTrivia)).isSome :=
    List.find?_isSome.mpr ⟨_, h.ending_mem_rest, rfl⟩
  obtain ⟨t, ht⟩ := Option.isSome_iff_exists.mp hfound
  exact ⟨t, List.mem_of_find?_eq_some ht, ht⟩

/-- Where a node is closed behind the newest leaf, it is closed where its children end. -/
theorem leaveAt_lastEnd (h : d.Steady source) : d.leaveAt d.lastEnd = d.leaveAt 0 := by
  unfold leaveAt Builder.leave
  rw [Frame.close_eq_of_le_front h.covered]

end Steady

/-- Every effect keeps a reading steady. -/
theorem Effect.steady (h : Effect d d') (hd : d.Steady source) : d'.Steady source := by
  cases h with
  | @place t later kind hrest ht =>
      have hplaced := rest_place hrest kind
      refine ⟨hd.tokens, ?_, ?_, Nat.le_refl _⟩
      · obtain ⟨body, hbody⟩ := hd.exists_body
        rw [hplaced]
        rintro rfl
        -- the only token left would be the end of the source
        rw [hrest, ← List.nil_append [t]] at hbody
        have hlast := List.append_inj_right' hbody rfl
        exact ht (by rw [(List.cons.inj hlast).1]; rfl)
      · have hpairs := (Token.lex_pairwise source).sublist hd.rest_suffix.sublist
        rw [hrest] at hpairs
        rw [hplaced]
        exact fun u hu => List.rel_of_pairwise_cons hpairs hu
  | report message => exact ⟨hd.tokens, hd.left, hd.behind, hd.covered⟩
  | enter kind =>
      refine ⟨hd.tokens, hd.left, hd.behind, ?_⟩
      obtain ⟨t, ht, hfaces⟩ := hd.exists_faces
      show d.lastEnd ≤ d.span.start
      rw [hfaces.span_eq]
      exact hd.behind t ht
  | leaveAt stop =>
      refine ⟨hd.tokens, hd.left, hd.behind, ?_⟩
      show d.lastEnd ≤ (d.builder.leave stop).top.front
      unfold Builder.leave
      split
      · exact hd.covered
      · exact Nat.le_trans hd.covered (Frame.front_le_close _ _)
  | @wrap builder hb =>
      refine ⟨hd.tokens, hd.left, hd.behind, ?_⟩
      have hcovered := hd.covered
      unfold Frame.front at hcovered
      unfold Builder.wrap? at hb
      split at hb
      · cases hb
      · rename_i hchildren
        cases hb
        rw [hchildren] at hcovered
        exact hcovered

/-- **Every step keeps a reading steady.** -/
theorem Steps.steady (h : Steps s s') (hs : s.1.Steady source) : s'.1.Steady source :=
  h.keeps Effect.steady hs

end Descent

end GolfAssist
