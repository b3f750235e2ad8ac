import GolfAssist.Proofs.Reader.Agenda
import GolfAssist.Proofs.Unclosed

/-!
# Reading by descent makes progress

* `Descent.Consumes` — a token that is no comment is used up between two states.
* `Descent.Orderly` — all that a state of a reading by descent takes for granted is there, and each
  routine that reads something comes back with a token used up.
* `Document.reader_descends` — the routines read every source to its end, and make the tree and the
  messages of its document.
* `Document.reading_progresses` — every state on the way is orderly.

A list that is broken off does not use up the token that breaks it off, and a type may read nothing
at all. So no routine by itself can be seen to go forward on every token: it does because its
callers never call it in front of a token that it leaves alone. That no such call is made is what
the agenda of a reader says (`Reader.Turn.descends`); from it follows that the tokens run out, that
every call returns, and that the branches for calls that are never made are never taken.
-/

namespace GolfAssist

/-! ## Messages -/

/-- No message says that an expression was expected where a token was found. -/
theorem Problem.not_expression_found (problem : Problem) :
    ¬ "expected expression, found".toList <+: problem.message.toList := by
  cases problem with
  | missing wanted found =>
      obtain ⟨rest, hrest⟩ := message_missing wanted found
      rw [hrest]
      cases wanted <;> simp [Wanted.complaint, Wanted.describe]
  | unknownCharacter text =>
      show ¬ _ <+: ("unexpected char '" ++ text ++ "'").toList
      simp
  | stray text =>
      show ¬ _ <+: ("unexpected `" ++ text ++ "`").toList
      simp
  | unterminatedString =>
      show ¬ _ <+: "unterminated string literal".toList
      simp
  | slashOutsideBraces =>
      show ¬ _ <+: "unexpected `/` outside of `\x7b \x7d`".toList
      simp
  | bareColon =>
      show ¬ _ <+: "expected expression before `:`".toList
      simp

/-- The routines that read something whenever they are called. -/
def Task.readers : List Task := [.expr, .sexpr, .variants, .typeSexpr, .rangeOrInteger]

namespace Descent

variable {source : String} {d d' d₁ d₂ e : Descent} {task : Task} {s s' : Descent × List Task}

/-! ## Tokens that are used up -/

/-- Between the states a token that is no comment is used up. -/
def Consumes (d d' : Descent) : Prop :=
  ∃ used, d.rest = used ++ d'.rest ∧ ∃ t ∈ used, t.isTrivia = false

/-- In front of a token, placing it uses it up. -/
theorem consumes_bump (h : d.Steady source) (hk : d.kind ≠ .eof) (kind : Node.Kind) :
    Consumes d (d.bump kind) := by
  obtain ⟨t, -, hfaces⟩ := h.exists_faces
  obtain ⟨ht, comments, later, hrest, hc⟩ := List.find?_eq_some_iff_append.mp hfaces
  have ht : t.isTrivia = false := by simpa using ht
  have hc : ∀ c ∈ comments, c.isTrivia := by simpa using hc
  have hflush : d.flush.rest = t :: later := by
    rw [flush_eq hrest hc ht]
    exact (foldl_place hrest).1
  refine ⟨comments ++ [t], ?_, t, by simp, ht⟩
  rw [bump_eq hflush (by rwa [← hfaces.kind_eq]), rest_place hflush, hrest]
  simp

/-- What is used up stays used up, and steps before do not give it back. -/
theorem Consumes.widen {a b a' b' : List Task} (h : Consumes d₁ d₂)
    (hbefore : Steps (d, a) (d₁, b)) (hbehind : Steps (d₂, a') (d', b')) : Consumes d d' := by
  obtain ⟨used, hused, t, ht, htrivia⟩ := h
  obtain ⟨before, hbefore⟩ := hbefore.rest_suffix
  obtain ⟨behind, hbehind⟩ := hbehind.rest_suffix
  refine ⟨before ++ (used ++ behind), ?_, t, by simp [ht], htrivia⟩
  rw [← hbefore, hused, ← hbehind]
  simp only [List.append_assoc]

/-! ## Calls that come to place a token -/

/-- Some token comes to be placed. -/
def Places (s : Descent × List Task) : Prop :=
  ∃ d kind waiting, Steps s (d, .bump kind :: waiting)

/-- Steps may come first. -/
theorem Places.after (h : Places s') (hs : Steps s s') : Places s := by
  obtain ⟨d, kind, waiting, h⟩ := h
  exact ⟨d, kind, waiting, hs.trans h⟩

/-- A node is opened in front of a token that is placed in it. -/
theorem places_enter (d : Descent) (kind leaf : Node.Kind) (waiting : List Task) :
    Places (d, .enter kind :: .bump leaf :: waiting) :=
  ⟨d.enter kind, leaf, waiting, .single rfl⟩

/-- A token that is rejected is placed. -/
theorem places_reject (d : Descent) (message : String) (waiting : List Task) :
    Places (d, .reject message :: waiting) :=
  ⟨d.report message, .error, waiting, .head rfl (.single rfl)⟩

/-- In front of a token, every routine that reads something comes to place a token. -/
theorem places_of_mem_readers (h : task ∈ Task.readers) (hk : d.kind ≠ .eof) :
    Places (d, [task]) := by
  have hfirst : Steps (d, [task]) ((d.perform task).1, (d.perform task).2 ++ []) := .single rfl
  refine Places.after ?_ hfirst
  simp only [Task.readers, List.mem_cons, List.not_mem_nil, or_false] at h
  rcases h with rfl | rfl | rfl | rfl | rfl
  · rw [perform]
    -- by the sort of the next token, in the order of the routine
    split
    · exact ⟨_, _, _, .refl⟩
    · exact ⟨_, _, _, .refl⟩
    · exact ⟨_, _, _, .refl⟩
    · exact ⟨_, _, _, .refl⟩
    · exact ⟨_, _, _, .refl⟩
    · exact (places_enter d .sexpr .openParen _).after (.single rfl)
    · exact (places_enter d .variants .openBrace _).after (.single rfl)
    · exact places_reject d _ _
    · exact ⟨_, _, _, .refl⟩
    · exact absurd ‹_› hk
    · exact places_reject d _ _
  · exact places_enter d .sexpr .openParen _
  · exact places_enter d .variants .openBrace _
  · exact places_enter d .typeSexpr .openParen _
  · rw [perform]
    split
    · exact places_enter d .typeRange .integer _
    · exact ⟨_, _, _, .refl⟩

/-! ## States on the way to an end -/

/-- Admitted steps are steps. -/
theorem Leads.steps (h : Leads s s') : Steps s s' := by
  induction h with
  | refl => exact .refl
  | tail _ hstep ih => exact .tail ih hstep.2

/-- If admitted steps lead to an end, every task that is performed on the way is admitted. -/
theorem Leads.admits (h : Leads s (e, [])) (hs : Steps s s') :
    ∀ task ∈ s'.2.head?, s'.1.Admits task := by
  have hleads : Leads s' (e, []) := by
    induction hs with
    | refl => exact h
    | tail _ hstep ih =>
        rcases Relation.ReflTransGen.cases_head ih with rfl | ⟨c, ⟨-, hc⟩, hrest⟩
        · cases hstep
        · rwa [step?_rightUnique hstep hc]
  rcases Relation.ReflTransGen.cases_head hleads with rfl | ⟨_, ⟨hadmits, -⟩, -⟩
  · exact fun _ h => absurd h (Option.not_mem_none _)
  · exact hadmits

/-- A routine that reads something is admitted only in front of a token. -/
theorem kind_ne_eof_of_mem_readers (h : task ∈ Task.readers) (ha : d.Admits task) :
    d.kind ≠ .eof := by
  simp only [Task.readers, List.mem_cons, List.not_mem_nil, or_false] at h
  rcases h with rfl | rfl | rfl | rfl | rfl
  · intro hk
    exact ha (by simp [hk])
  · exact ha
  · exact ha
  · exact ha
  · exact ha

/-- A call that is made on the way to an end returns, with a token used up. -/
theorem Leads.call_consumes {waiting : List Task} (hend : Leads (start source, [.program]) (e, []))
    (hcall : Steps (start source, [.program]) (d, task :: waiting)) (h : task ∈ Task.readers) :
    ∃ d', Steps (d, [task]) (d', []) ∧ Consumes d d' := by
  obtain ⟨d', hreturn⟩ : ∃ d', Steps (d, [task]) (d', []) :=
    Steps.exists_return (hcall.to_end hend.steps)
  have hkind : d.kind ≠ .eof := kind_ne_eof_of_mem_readers h (hend.admits hcall task rfl)
  obtain ⟨d₁, kind, later, hbump⟩ := places_of_mem_readers h hkind
  have hreached : Steps (start source, [.program]) (d₁, .bump kind :: (later ++ waiting)) :=
    hcall.trans (hbump.append waiting)
  have hconsumes : Consumes d₁ (d₁.bump kind) :=
    consumes_bump (hreached.steady (steady_start source)) (hend.admits hreached _ rfl) kind
  -- the token is placed before the call returns, since then nothing would be left to do
  have hbehind : Steps (d₁.bump kind, later) (d', []) :=
    Steps.to_end (.single rfl) (hbump.to_end hreturn)
  exact ⟨d', hreturn, hconsumes.widen hbump hbehind⟩

/-! ## Orderly states -/

/-- The position is one of the token list, and no search ahead runs out of tokens. -/
def InBounds (d : Descent) : Prop := d.pos < d.tokens.length ∧ ∀ n, (d.index? n).isSome

/-- A steady reading stays within the tokens. -/
theorem Steady.inBounds (h : d.Steady source) : d.InBounds := ⟨h.pos_lt, h.isSome_index?⟩

/-- Nothing is out of order in a state: what its first task takes for granted is there, and if that
is a routine that reads something, it comes back with a token used up. -/
structure Orderly (source : String) (d : Descent) (agenda : List Task) : Prop where
  /-- The tokens are those of the source. -/
  tokens : d.tokens = Token.lex source
  /-- The reading stays within the tokens, also behind the comments that come next. -/
  inBounds : d.InBounds ∧ d.flush.InBounds
  /-- An expression is called for where one can begin. -/
  expr : agenda.head? = some .expr →
    d.kind ∉ [.eof, .closeParen, .closeBrace, .slash, .semicolon]
  /-- There is an expression to be wrapped where its type is read. -/
  annotate : agenda.head? = some .annotate → (d.builder.wrap? .typedExpr).isSome
  /-- The end of the source is not placed. -/
  bump : ∀ kind, agenda.head? = some (.bump kind) → d.kind ≠ .eof
  /-- The root is not closed. -/
  leaveAt : ∀ stop, agenda.head? = some (.leaveAt stop) → d.builder.outer ≠ []
  /-- The branches for tokens that begin no expression have not been taken. -/
  diagnostics : ∀ m ∈ d.diagnostics, ¬ "expected expression, found".toList <+: m.message.toList
  /-- A routine that reads something returns to what waits for it, with a token used up. -/
  returns : ∀ task ∈ Task.readers, ∀ waiting, agenda = task :: waiting →
    ∃ d', Steps (d, [task]) (d', []) ∧ Steps (d, agenda) (d', waiting) ∧ Consumes d d'

/-- On the way to an end at which no expression is reported missing, every state is orderly. -/
theorem Leads.orderly {agenda : List Task} (hend : Leads (start source, [.program]) (e, []))
    (hm : ∀ m ∈ e.diagnostics, ¬ "expected expression, found".toList <+: m.message.toList)
    (h : Steps (start source, [.program]) (d, agenda)) : Orderly source d agenda := by
  have hsteady := h.steady (steady_start source)
  have hadmits := hend.admits h
  refine ⟨hsteady.tokens, ⟨hsteady.inBounds, (hsteady.perform .flush).inBounds⟩, hadmits .expr,
    hadmits .annotate, fun kind => hadmits (.bump kind), fun stop => hadmits (.leaveAt stop),
    ?_, ?_⟩
  · intro m hmem
    exact hm m ((h.to_end hend.steps).diagnostics_suffix.subset hmem)
  · rintro task htask waiting rfl
    obtain ⟨d', hreturn, hconsumes⟩ := hend.call_consumes h htask
    exact ⟨d', hreturn, hreturn.append waiting, hconsumes⟩

end Descent

/-! ## Whole readings -/

namespace Document

open Descent

/-- The reading by descent has come as far as a reader that has the tokens before it. -/
def Descends (source : String) (rest : List Token) (r : Reader) : Prop :=
  ∃ d, Leads (Descent.start source, [.program]) (d, r.agenda) ∧ r.Follows source rest d

/-- At the start nothing has been read by either. -/
theorem descends_start (source : String) :
    Descends source (Token.lex source) (.start (Text.byteLength source.toList)) :=
  ⟨_, .refl, Reader.Abreast.follows ⟨steady_start source, rfl, rfl, rfl, rfl⟩⟩

/-- At the end of the source, the root is what is left to go on with. -/
theorem agenda_reader (source : String) (hx : (reader source).expects = .item) :
    (reader source).agenda = [.program] := by
  obtain ⟨-, hnested, hreg⟩ := reader_acts source
  have houter : (reader source).builder.outer = [] := hnested.eq_nil_of_program hreg
  rw [Reader.agenda_of_item hx, Reader.waiting, Reader.around, hreg, houter]
  rfl

/-- **Reading descends.** Admitted steps lead from nothing to the end of the source, where the tree
and the messages are those of the reader. -/
theorem reader_descends (source : String) :
    ∃ d, Leads (Descent.start source, [.program]) (d, []) ∧
      d.builder = (reader source).builder ∧
      d.diagnostics = (reader source).findings.map (·.diagnostic) := by
  have hhold : ∀ {r : Reader} {t : Token} {rest : List Token}, t.isTrivia →
      Descends source (t :: rest) r → Descends source rest (r.hold t) := by
    rintro r t rest ht ⟨d, hleads, hfollows⟩
    exact ⟨d, hleads, hfollows.hold ht⟩
  have hturn : ∀ {r r' : Reader} {t next : Token} {rest : List Token}, r.Ready t →
      Reader.Turn t next r r' → (t.kind ≠ .eof → rest.find? (!·.isTrivia) = some next) →
      Descends source (t :: rest) r → Descends source (Reader.left t rest) r' := by
    rintro r r' t next rest hr hturn hnext ⟨d, hleads, hfollows⟩
    obtain ⟨d', hturned, hfollows'⟩ := hturn.descends hr hnext hfollows
    exact ⟨d', hleads.trans hturned, hfollows'⟩
  obtain ⟨⟨d, hleads, hfollows⟩, -, -, hcomments, hx⟩ :=
    Reader.read_keeps (I := Descends source) rfl hhold hturn (Token.scan 0 0 source.toList)
      (fun t ht => Token.kind_ne_eof_of_mem_scan ht) (Reader.ready_start _ _)
      (descends_start source)
  change Leads _ (d, (reader source).agenda) at hleads
  change (reader source).Follows source _ d at hfollows
  rw [agenda_reader source hx] at hleads
  -- in front of the end, the comments are placed and nothing is left to do
  have hfaces := hfollows.faces rfl
  have hprogram : Leads (d, [.program]) (d, [.flush]) :=
    leads_of_perform [.flush] (by simp only [perform, hfaces.kind_eq, Token.ending]) trivial
  have hflush : Leads (d, [.flush]) (d.flush, []) := leads_of_perform [] rfl trivial
  have habreast := hfollows.flush rfl
  refine ⟨d.flush, hleads.trans (hprogram.trans hflush), ?_, habreast.diagnostics⟩
  rw [habreast.builder, Reader.attach, show (reader source).comments = [] from hcomments]
  rfl

/-- **Reading by descent makes progress.** The routines come to an end on every source, with the
tree and the messages of its document. In every state on the way the position is one of the token
list and no search runs out of tokens; no expression is called for at the end of the source, at a
closer or at a divider; there is an expression wherever one is to be wrapped; the end of the source
is never placed and the root never closed; and each call of a routine that reads something returns
with a token used up that is no comment. So no message says that an expression was expected where a
token was found. -/
theorem reading_progresses (source : String) :
    (∃ d, Steps (Descent.start source, [.program]) (d, []) ∧
      d.builder.finish = (read source).tree ∧
      d.diagnostics.reverse = (read source).findings.map (·.diagnostic)) ∧
    (∀ d agenda, Steps (Descent.start source, [.program]) (d, agenda) →
      Orderly source d agenda) ∧
    ∀ m ∈ (read source).diagnostics,
      ¬ "expected expression, found".toList <+: m.message.toList := by
  obtain ⟨e, hend, hbuilder, hdiagnostics⟩ := reader_descends source
  refine ⟨⟨e, hend.steps, congrArg Builder.finish hbuilder, ?_⟩, ?_, ?_⟩
  · rw [hdiagnostics, ← List.map_reverse]
    rfl
  · intro d agenda h
    refine hend.orderly ?_ h
    intro m hm
    rw [hdiagnostics] at hm
    obtain ⟨f, -, rfl⟩ := List.mem_map.mp hm
    exact f.problem.not_expression_found
  · intro m hm
    obtain ⟨f, -, rfl⟩ := List.mem_map.mp hm
    exact f.problem.not_expression_found

/-- A brace breaks off a list of types and the list around it, in the middle of a range. Both calls
return with tokens used up, and what the colon behind the brace annotates is there. -/
theorem reading_progresses_cascade :
    (∃ d waiting,
      Steps (Descent.start "\x7b(x:(a%c\n1..\x7d:(b", [.program]) (d, .sexpr :: waiting) ∧
      ∃ d', Steps (d, [.sexpr]) (d', []) ∧ Consumes d d') ∧
    (∃ d waiting,
      Steps (Descent.start "\x7b(x:(a%c\n1..\x7d:(b", [.program]) (d, .typeSexpr :: waiting) ∧
      ∃ d', Steps (d, [.typeSexpr]) (d', []) ∧ Consumes d d') ∧
    ∃ d waiting,
      Steps (Descent.start "\x7b(x:(a%c\n1..\x7d:(b", [.program]) (d, .annotate :: waiting) ∧
      d.kind = .colon ∧ d.rest.length = 4 ∧ (d.builder.wrap? .typedExpr).isSome := by
  obtain ⟨-, horderly, -⟩ := reading_progresses "\x7b(x:(a%c\n1..\x7d:(b"
  have hreached := fun (n : Nat) (task : Task) =>
    exists_steps_of_run (s := (Descent.start "\x7b(x:(a%c\n1..\x7d:(b", [.program])) task n
  obtain ⟨listBehind, hlist⟩ := hreached 7 .sexpr (by decide +kernel)
  obtain ⟨typesBehind, htypes⟩ := hreached 17 .typeSexpr (by decide +kernel)
  obtain ⟨colonBehind, hcolon⟩ := hreached 49 .annotate (by decide +kernel)
  refine ⟨⟨_, _, hlist, ?_⟩, ⟨_, _, htypes, ?_⟩,
    ⟨_, _, hcolon, by decide +kernel, by decide +kernel, (horderly _ _ hcolon).annotate rfl⟩⟩
  · obtain ⟨d', hreturn, -, hconsumes⟩ := (horderly _ _ hlist).returns .sexpr (by decide) _ rfl
    exact ⟨d', hreturn, hconsumes⟩
  · obtain ⟨d', hreturn, -, hconsumes⟩ := (horderly _ _ htypes).returns .typeSexpr (by decide) _ rfl
    exact ⟨d', hreturn, hconsumes⟩

end Document

end GolfAssist
