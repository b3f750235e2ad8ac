import GolfAssist.Proofs.Reader.Outline
import GolfAssist.Proofs.Recovery

/-!
# The reader accepts what the grammar derives

* `Reader.CompletedBy` — nothing has been found wrong so far, and what has been read becomes the
  given program with the lexemes that follow.
* `Reader.Turn.completedBy_iff` — no turn changes that, whether the answer is yes or no.
* `Document.diagnostics_iff_grammar` — a source has no diagnostics if and only if its lexemes are a
  program of the grammar and its literals are closed; and then its tree is that program.

Both directions of the last statement come from the one equivalence. A turn that reports something
leads to a reader that nothing completes, and so it has to be shown that nothing completed the
reader before: that the reader is right to complain. For any other turn the lexeme that is read is
the one that the grammar asks for.
-/

namespace GolfAssist

open Grammar

/-- The lexemes begin with that of the token, or there are none if it ends the source. -/
def Token.Heads (t : Token) (k : List Lexeme) : Prop :=
  k.head? = if t.kind = .eof then none else some t.lexeme

/-- The token that the lexemes begin with. -/
theorem Token.Heads.lexeme_eq {t : Token} {l : Lexeme} {k : List Lexeme} (h : t.Heads (l :: k)) :
    t.lexeme = l := by
  unfold Heads at h
  split at h
  · cases h
  · exact (Option.some.inj h).symm

/-- There are lexemes if the token does not end the source. -/
theorem Token.Heads.exists_cons {t : Token} {k : List Lexeme} (h : t.Heads k)
    (ht : t.kind ≠ .eof) : ∃ k', k = t.lexeme :: k' := by
  unfold Heads at h
  rw [if_neg ht] at h
  obtain ⟨k', rfl⟩ := List.head?_eq_some_iff.mp h
  exact ⟨k', rfl⟩

/-- Only the dots of a range are the lexeme of them. -/
theorem Token.isDots_iff_lexeme {t : Token} : t.isDots ↔ t.lexeme = .dots := by
  simp [isDots, lexeme, Lexeme.dots]

/-- A token that is no comment becomes no comment. -/
theorem Token.leafKind_ne_lineComment {t : Token} (h : t.isTrivia = false) :
    t.leafKind ≠ .lineComment := by
  have hword := Node.Kind.ofWord_eq t.text
  unfold leafKind
  cases hk : t.kind <;> simp_all [isTrivia]
  rcases hword with h | h | h <;> simp [h]

namespace Reader

variable {source : String} {forest : List Phrase} {r r' : Reader} {t next : Token}
  {k : List Lexeme} {f : Level} {fs : List Level}

/-- Nothing has been found wrong, and what has been read becomes the program `forest` with the
lexemes `k`. -/
def CompletedBy (source : String) (forest : List Phrase) (r : Reader) (k : List Lexeme) : Prop :=
  r.findings = [] ∧ Demands forest r.expects (r.outline source) k

/-- Nothing completes a reader that has found something wrong. -/
theorem not_completedBy_of_findings (h : r.findings ≠ []) : ¬ r.CompletedBy source forest k :=
  fun hc => h hc.1

/-- Where items are expected, the innermost node has to be closed. -/
theorem completedBy_item_iff (hx : r.expects = .item) (ho : r.outline source = f :: fs) :
    r.CompletedBy source forest k ↔
      r.findings = [] ∧ f.Closes forest (Accepts forest fs) k := by
  rw [CompletedBy, hx, ho]
  rfl

/-- A token that neither begins a part nor ends the innermost node does not complete the reader. -/
theorem not_completedBy_item (hr : r.Ready t) (hx : r.expects = .item)
    (hb : r.region.begins t.kind = false) (he : r.region.endsWith t.kind = false) :
    ¬ r.CompletedBy source forest (t.lexeme :: k) := by
  obtain ⟨f, fs, ho, hf⟩ := r.exists_outline source
  have hdue := hr.due
  rw [Due, hx] at hdue
  rw [← hf] at hb he hdue
  rw [completedBy_item_iff hx ho]
  rintro ⟨-, hcloses⟩
  exact Level.not_closes hdue hb he hcloses

/-! ## Ends of values and types -/

/-- The end of a type reports nothing. -/
theorem endType_findings (r : Reader) : r.endType.findings = r.findings := by
  unfold endType
  dsimp only
  split <;> rfl

/-- The end of a value reports nothing. -/
theorem endValue_findings (r : Reader) (next : Token) :
    (r.endValue next).findings = r.findings := by
  unfold endValue
  split
  · split <;> rfl
  · rfl

/-- A list that is broken off has something wrong. -/
theorem breakOff_findings_ne_nil (r : Reader) (wanted : Wanted) (t : Token) :
    (r.breakOff wanted t).findings ≠ [] := by
  by_cases htype : r.region = .typeSexpr
  · rw [breakOff_of_typeSexpr htype, endType_findings]
    exact List.cons_ne_nil _ _
  · rw [breakOff_of_ne_typeSexpr htype]
    exact List.cons_ne_nil _ _

/-- After a type, the reader is completed by what the nodes around the type accept. -/
theorem endType_completedBy_iff {type : Phrase} (hn : Nested r.frames)
    (h : r.Newest source type (f :: fs)) :
    r.endType.CompletedBy source forest k ↔
      r.findings = [] ∧ Accepts forest (f :: fs) type k := by
  have ho := h.outline
  obtain ⟨f', fs', ho', hf'⟩ := r.exists_outline source
  rw [ho] at ho'
  cases ho'
  have hf : f.kind = r.region := hf'
  by_cases hreg : r.region = .typedExpr
  · obtain ⟨_, g, gs, ho', -, henc⟩ :=
      exists_outline_of_ne_program source hn (by rw [hreg]; simp)
    rw [ho] at ho'
    cases ho'
    rw [hreg] at henc hf
    have hg : g.kind ≠ .typedExpr := ne_typedExpr_of_holdsValues henc
    rw [endType_of_typedExpr hreg, accepts_typedExpr_iff hf, accepts_iff_closes hg]
    exact completedBy_item_iff rfl (newest_leaveAt hn ho 0).outline
  · rw [endType_of_ne_typedExpr hreg, accepts_iff_closes (hf ▸ hreg)]
    exact completedBy_item_iff rfl ho

/-- After a value, the reader is completed by what the node around it accepts, with a type if a
colon comes next. -/
theorem endValue_completedBy_iff {p : Phrase} (hx : r.expects = .item)
    (h : r.Newest source p (f :: fs)) (hf : f.kind.holdsValues) (hnext : next.Heads k) :
    (r.endValue next).CompletedBy source forest k ↔
      r.findings = [] ∧ AtomThen (Accepts forest (f :: fs)) p k := by
  by_cases hc : next.kind = .colon
  · obtain ⟨k', rfl⟩ := hnext.exists_cons (by rw [hc]; simp)
    have hexpects : (r.endValue next).expects = .colon := by
      obtain ⟨g, n, gs, hframes, -⟩ := h
      rw [endValue_of_colon hc (congrArg Frame.children (List.cons.inj hframes).1)]
    rw [CompletedBy, endValue_findings, hexpects, h.outline_endValue hc, Token.lexeme, hc,
      Demands, next_cons_iff, atomThen_colon_iff hf]
    rfl
  · have hk : ∀ l k', k = l :: k' → l.kind ≠ .colon := by
      rintro l k' rfl
      rwa [← hnext.lexeme_eq]
    rw [endValue_of_ne_colon hc, atomThen_iff_of_ne_colon hk,
      accepts_iff_closes (ne_typedExpr_of_holdsValues hf)]
    exact completedBy_item_iff hx h.outline

/-- Where a type has to follow, the reader is completed by lexemes that begin with one. -/
theorem awaitType_completedBy_iff (hnext : next.Heads k) :
    (r.awaitType next).CompletedBy source forest k ↔
      r.findings = [] ∧ TakesType forest (r.outline source) k := by
  by_cases hs : next.kind.startsType
  · rw [awaitType_of_startsType hs]
    rfl
  · rw [awaitType_of_not_startsType hs]
    constructor
    · intro h
      refine absurd h (not_completedBy_of_findings ?_)
      rw [endType_findings]
      exact List.cons_ne_nil _ _
    · rintro ⟨-, htype⟩
      cases k with
      | nil => exact absurd htype not_takesType_nil
      | cons l k =>
          rw [← hnext.lexeme_eq] at htype
          exact absurd htype (not_takesType (eq_false_of_ne_true hs))

/-! ## Turns -/

/-- Where a type is read, the reader is completed by lexemes that begin with one. -/
theorem AwaitsType.completedBy_iff (h : r.AwaitsType) (ht : t.kind.startsType) :
    r.CompletedBy source forest (t.lexeme :: k) ↔
      r.findings = [] ∧ TakesType forest (r.outline source) (t.lexeme :: k) := by
  obtain ⟨f, fs, ho, hf⟩ := r.exists_outline source
  rcases h with hx | ⟨hx, hreg⟩
  · rw [CompletedBy, hx, ho]
    rfl
  · rw [completedBy_item_iff hx ho, ho, closes_type_iff (hf.trans hreg) ht]

/-- A leaf that is a type by itself completes the demand for one. -/
theorem AwaitsType.leaf_completedBy_iff {kind : Node.Kind} (h : r.AwaitsType) (hr : r.Ready t)
    (ht : t ∈ Token.lex source) (hs : t.kind.startsType) (hk : kind ≠ .lineComment)
    (htype : ∀ fs, TakesType forest fs (t.lexeme :: k) ↔ Accepts forest fs (.leaf kind t.text) k) :
    r.CompletedBy source forest (t.lexeme :: k) ↔
      (r.shift kind t).endType.CompletedBy source forest k := by
  obtain ⟨f, fs, ho, -⟩ := r.exists_outline source
  have hnewest := newest_shift ht hk ho
  rw [h.completedBy_iff hs, htype, ho,
    endType_completedBy_iff (nested_shift hr.nested kind t) hnewest]
  rfl

/-- A type that ends with a leaf is accepted by the nodes around it. -/
theorem leave_completedBy_iff {kind : Node.Kind} {f g : Level} {gs : List Level}
    (hr : r.Ready t) (ht : t ∈ Token.lex source) (hk : kind ≠ .lineComment)
    (ho : r.outline source = f :: g :: gs) :
    (r.shift kind t).leave.endType.CompletedBy source forest k ↔
      r.findings = [] ∧ Accepts forest (g :: gs) (f.push (.leaf kind t.text)).phrase k := by
  have hn := nested_shift hr.nested kind t
  have hnewest := newest_shift ht hk ho
  obtain ⟨_, _, n, hleave, -, hgs⟩ := frames_leave hn (ne_program_of_outline hn hnewest.outline)
  have hclosed : (r.shift kind t).leave.Newest source _ (g :: gs) :=
    newest_leaveAt hn hnewest.outline 0
  exact endType_completedBy_iff (hleave ▸ hgs.push n) hclosed

/-- **A turn does not change what completes a reader.** The lexeme of its token is taken off what
has to follow; a turn that reports something had nothing to follow it. -/
theorem Turn.completedBy_iff (h : Turn t next r r') (hr : r.Ready t) (ht : t ∈ Token.lex source)
    (hc : t.isTrivia = false) (he : t.kind ≠ .eof) (hu : t.kind ≠ .unknown)
    (hnext : next.Heads k) :
    r.CompletedBy source forest (t.lexeme :: k) ↔ r'.CompletedBy source forest k := by
  have hleaf := Token.leafKind_ne_lineComment hc
  induction h with
  | @breakOff r r' wanted hx hb _ ih =>
      refine Iff.trans ?_ (ih (ready_breakOff hr hx hb).1)
      refine iff_of_false (not_completedBy_item hr hx ?_ ?_) (not_completedBy_of_findings ?_)
      · unfold Node.Kind.brokenBy at hb
        split at hb <;> simp_all [Node.Kind.begins, Node.Kind.holdsValues]
      · unfold Node.Kind.brokenBy at hb
        split at hb <;> simp_all [Node.Kind.endsWith]
      · exact r.breakOff_findings_ne_nil wanted t
  | finish hx hreg htk => exact absurd htk he
  | @divide r hx htk =>
      obtain ⟨f, fs, ho, hf⟩ := r.exists_outline source
      have hnewest := newest_shift ht hleaf ho
      rw [← hf] at htk
      rw [completedBy_item_iff hx ho, closes_divider_iff htk,
        completedBy_item_iff (by exact hx) hnewest.outline]
      rfl
  | @atom r hx hreg htk =>
      obtain ⟨f, fs, ho, hf⟩ := r.exists_outline source
      have hnewest := newest_shift ht hleaf ho
      rw [← hf] at hreg
      rw [completedBy_item_iff hx ho, closes_value_iff hreg htk hu,
        endValue_completedBy_iff (by exact hx) hnewest hreg hnext]
      rfl
  | @openList r kind hx hreg htk =>
      obtain ⟨f, fs, ho, hf⟩ := r.exists_outline source
      have hopen := outline_enter_shift ht hleaf kind ho
      rw [← hf] at hreg
      rw [completedBy_item_iff hx ho, closes_opener_iff hreg htk,
        completedBy_item_iff (by exact hx) hopen]
      rfl
  | @closeList r hx htk =>
      have hk : r.region = .sexpr ∨ r.region = .variants := by
        unfold Node.Kind.closer? at htk
        split at htk <;> simp_all
      obtain ⟨f, g, gs, ho, hf, henc⟩ := exists_outline_of_ne_program source hr.nested
        (by rcases hk with hk | hk <;> simp [hk])
      have hg : g.kind.holdsValues := by rcases hk with hk | hk <;> rwa [hk] at henc
      have hnewest := newest_shift ht hleaf ho
      have hclosed : (r.shift t.leafKind t).leave.Newest source _ (g :: gs) :=
        newest_leaveAt (nested_shift hr.nested _ _) hnewest.outline 0
      rw [← hf] at htk
      rw [completedBy_item_iff hx ho, closes_closer_iff htk,
        endValue_completedBy_iff (by exact hx) hclosed hg hnext]
      rfl
  | @stray r problem hx htk =>
      refine iff_of_false (not_completedBy_item hr hx ?_ ?_)
        (not_completedBy_of_findings (List.cons_ne_nil _ _))
      · unfold Node.Kind.rejects at htk
        split at htk <;> simp_all [Node.Kind.begins, Node.Kind.holdsValues]
      · unfold Node.Kind.rejects at htk
        split at htk <;> simp_all [Node.Kind.endsWith]
  | @bareColon r hx hreg htk =>
      rw [awaitType_completedBy_iff hnext]
      refine iff_of_false (not_completedBy_item hr hx ?_ ?_) ?_
      · rw [htk]
        rfl
      · rw [htk]
        rfl
      · rintro ⟨hnil, -⟩
        cases hnil
  | @colon r hx hreg htk =>
      obtain ⟨f, fs, ho, -⟩ := r.exists_outline source
      have hnewest := newest_shift ht (show Node.Kind.colon ≠ .lineComment by simp) ho
      rw [awaitType_completedBy_iff hnext, hnewest.outline, CompletedBy, hx, ho, Token.lexeme, htk,
        Demands, next_cons_iff]
      rfl
  | @typeName r hreg htk =>
      refine hreg.leaf_completedBy_iff hr ht (by rw [htk]; rfl) (by simp) fun fs => ?_
      rw [Token.lexeme, htk]
      exact takesType_word_iff
  | @typeInteger r hreg htk hn =>
      refine hreg.leaf_completedBy_iff hr ht (by rw [htk]; rfl) (by simp) fun fs => ?_
      rw [Token.lexeme, htk]
      refine takesType_integer_iff fun hk => ?_
      obtain ⟨k', rfl⟩ := List.head?_eq_some_iff.mp hk
      rw [Token.isDots_iff_lexeme.mpr hnext.lexeme_eq] at hn
      cases hn
  | @openTypes r hreg htk =>
      have hopen := outline_enter_shift (r := r) ht
        (show Node.Kind.openParen ≠ .lineComment by simp) .typeSexpr rfl
      rw [hreg.completedBy_iff (by rw [htk]; rfl), Token.lexeme, htk, takesType_openParen_iff,
        ← hopen]
      rfl
  | @closeTypes r hx hreg htk =>
      obtain ⟨f, g, gs, ho, hf, -⟩ := exists_outline_of_ne_program source hr.nested
        (by simp [hreg])
      rw [completedBy_item_iff hx ho, Token.lexeme, htk, closes_closeParen_iff (hf.trans hreg),
        leave_completedBy_iff hr ht (by simp) ho]
  | @openRange r hreg htk hn =>
      have hopen := outline_enter_shift (r := r) ht
        (show Node.Kind.integer ≠ .lineComment by simp) .typeRange rfl
      have hdots := Token.isDots_iff_lexeme.mp hn
      obtain ⟨k', rfl⟩ := hnext.exists_cons (by simp_all [Token.isDots])
      rw [hreg.completedBy_iff (by rw [htk]; rfl), Token.lexeme, htk, hdots, takesType_dots_iff,
        ← hopen]
      rfl
  | @dots r hx hreg htk hn =>
      obtain ⟨f, fs, ho, -⟩ := r.exists_outline source
      have hnewest := newest_shift ht (show Node.Kind.opalias ≠ .lineComment by simp) ho
      have hdots := Token.isDots_iff_lexeme.mp htk
      have htext : t.text = ".." := congrArg Lexeme.text hdots
      rw [htext] at hnewest
      rw [CompletedBy, hx, ho, hdots, demands_dots_iff, ← hnewest.outline]
      rfl
  | @dotsOnly r hx hreg htk hn =>
      obtain ⟨f, fs, ho, -⟩ := r.exists_outline source
      have hdots := Token.isDots_iff_lexeme.mp htk
      rw [CompletedBy, hx, ho, hdots, demands_dots_iff]
      refine iff_of_false ?_ (not_completedBy_of_findings ?_)
      · rintro ⟨-, upper, k', rfl, -⟩
        exact hn (congrArg Lexeme.kind hnext.lexeme_eq)
      · rw [endType_findings]
        exact List.cons_ne_nil _ _
  | @bound r hx hreg htk =>
      obtain ⟨f, g, gs, ho, -, -⟩ := exists_outline_of_ne_program source hr.nested
        (by simp [hreg])
      rw [CompletedBy, hx, ho, Token.lexeme, htk, Demands, next_cons_iff,
        leave_completedBy_iff hr ht (by simp) ho]

/-- At the end of the source, a reader is completed if the root alone is open and has the parts of
the program. -/
theorem Turn.completedBy_nil_iff (h : Turn t next r r') (hr : r.Ready t) (he : t.kind = .eof) :
    r.CompletedBy source forest [] ↔
      r'.findings = [] ∧ r'.outline source = [⟨.program, forest⟩] := by
  revert hr
  apply h.eof_induction (P := fun r => r.Ready t → (r.CompletedBy source forest [] ↔
    r'.findings = [] ∧ r'.outline source = [⟨.program, forest⟩])) he
  · rintro r hx hreg rfl hr
    have hnil := hr.nested.eq_nil_of_program hreg
    have ho : r.outline source = [r.builder.top.level source] := by
      rw [outline, frames, hnil]
      rfl
    rw [completedBy_item_iff hx ho, Level.closes_nil_iff, Level.ends_nil_iff, outline_attach, ho]
    constructor
    · rintro ⟨hfindings, hkind, rfl⟩
      refine ⟨hfindings, ?_⟩
      rw [← hkind]
    · rintro ⟨hfindings, heq⟩
      rw [(List.cons.inj heq).1]
      exact ⟨hfindings, rfl, rfl⟩
  · intro r wanted hx hb ih hr
    refine Iff.trans ?_ (ih (ready_breakOff hr hx hb).1)
    obtain ⟨f, fs, ho, hf⟩ := r.exists_outline source
    refine iff_of_false ?_ (not_completedBy_of_findings (r.breakOff_findings_ne_nil wanted t))
    rw [completedBy_item_iff hx ho, Level.closes_nil_iff, Level.ends_nil_iff, hf]
    rintro ⟨-, hprogram, -⟩
    rw [hprogram] at hb
    cases hb

/-! ## Whole readings -/

/-- Comments have no lexeme. -/
theorem lexemes_cons_of_isTrivia (h : t.isTrivia) (ts : List Token) :
    Token.lexemes (t :: ts) = Token.lexemes ts := by
  unfold Token.lexemes
  rw [List.filter_cons_of_neg (by simp [h])]

/-- Any other token but the end has one. -/
theorem lexemes_cons (h : t.isTrivia = false) (he : t.kind ≠ .eof) (ts : List Token) :
    Token.lexemes (t :: ts) = t.lexeme :: Token.lexemes ts := by
  unfold Token.lexemes
  rw [List.filter_cons_of_pos (by simp [h, he]), List.map_cons]

/-- The next token that is no comment is the one that the lexemes begin with. -/
theorem heads_upcoming {last : Token} (hlast : last.kind = .eof) {body : List Token}
    (hbody : ∀ t ∈ body, t.kind ≠ .eof) :
    (upcoming last (body ++ [last])).Heads (Token.lexemes body) := by
  induction body with
  | nil =>
      rw [List.nil_append, upcoming_of_not_isTrivia (isTrivia_of_eof hlast), Token.Heads,
        if_pos hlast]
      rfl
  | cons t body ih =>
      have ht : t.kind ≠ .eof := hbody t List.mem_cons_self
      by_cases hc : t.isTrivia
      · rw [List.cons_append, upcoming_of_isTrivia hc, lexemes_cons_of_isTrivia hc]
        exact ih fun u hu => hbody u (List.mem_cons_of_mem _ hu)
      · have hc : t.isTrivia = false := by simpa using hc
        rw [List.cons_append, upcoming_of_not_isTrivia hc, lexemes_cons hc ht, Token.Heads,
          if_neg ht]
        rfl

/-- No lexeme of an unknown character completes a reader. -/
theorem not_completedBy_unknown (hr : r.Ready t) (ht : t.kind = .unknown) :
    ¬ r.CompletedBy source forest (t.lexeme :: k) := by
  have hdue := hr.due
  unfold Due at hdue
  split at hdue
  · exact not_completedBy_item hr ‹_› (by rw [ht]; rfl) (by rw [ht]; rfl)
  · simp [ht] at hdue
  · simp [ht, Token.Kind.startsType] at hdue
  · simp [ht, Token.isDots] at hdue
  · simp [ht] at hdue

/-- **Reading to the end.** The lexemes of the tokens complete the reader if and only if reading
them finds nothing wrong, none of them is unknown, and the root then has the parts of the
program. -/
theorem read_completedBy_iff {last : Token} (hlast : last.kind = .eof) {body : List Token}
    (hbody : ∀ t ∈ body, t.kind ≠ .eof ∧ t ∈ Token.lex source)
    (hr : r.Ready (upcoming last (body ++ [last]))) :
    r.CompletedBy source forest (Token.lexemes body) ↔
      (read last r (body ++ [last])).findings = [] ∧ (∀ t ∈ body, t.kind ≠ .unknown) ∧
        (read last r (body ++ [last])).outline source = [⟨.program, forest⟩] := by
  induction body generalizing r with
  | nil =>
      rw [List.nil_append, upcoming_of_not_isTrivia (isTrivia_of_eof hlast)] at hr
      have hturn : Turn last last r (r.step last last) := step_turn hr (isTrivia_of_eof hlast)
      constructor
      · intro h
        obtain ⟨hfindings, ho⟩ := (hturn.completedBy_nil_iff hr hlast).mp h
        exact ⟨hfindings, by simp, ho⟩
      · rintro ⟨hfindings, -, ho⟩
        exact (hturn.completedBy_nil_iff hr hlast).mpr ⟨hfindings, ho⟩
  | cons t body ih =>
      have hrest : ∀ u ∈ body, u.kind ≠ .eof ∧ u ∈ Token.lex source :=
        fun u hu => hbody u (List.mem_cons_of_mem _ hu)
      obtain ⟨he, ht⟩ := hbody t List.mem_cons_self
      rw [List.cons_append] at hr ⊢
      rw [read]
      rw [List.forall_mem_cons]
      by_cases hc : t.isTrivia
      · rw [upcoming_of_isTrivia hc] at hr
        have hready : (r.hold t).Ready (upcoming last (body ++ [last])) := ⟨hr.nested, hr.due⟩
        have hu : t.kind ≠ .unknown := by
          intro hk
          simp [Token.isTrivia, hk] at hc
        rw [lexemes_cons_of_isTrivia hc, step, if_pos hc, and_iff_right hu]
        exact ih hrest hready
      · have hc : t.isTrivia = false := by simpa using hc
        rw [upcoming_of_not_isTrivia hc] at hr
        rw [lexemes_cons hc he]
        by_cases hu : t.kind = .unknown
        · refine iff_of_false (not_completedBy_unknown hr hu) ?_
          rintro ⟨-, ⟨hne, -⟩, -⟩
          exact hne hu
        · have hturn : Turn t (upcoming last (body ++ [last])) r _ := step_turn hr hc
          have hnext := heads_upcoming hlast fun u hu => (hrest u hu).1
          rw [hturn.completedBy_iff hr ht hc he hu hnext, and_iff_right hu]
          exact ih hrest (hturn.ready hr)

end Reader

namespace Document

/-- The reader that has read nothing is completed by the lexemes of the program. -/
theorem completedBy_start_iff (source : String) {forest : List Phrase} {k : List Lexeme}
    (length : Nat) :
    (Reader.start length).CompletedBy source forest k ↔ IsProgram k forest := by
  rw [Reader.completedBy_item_iff rfl rfl]
  constructor
  · rintro ⟨-, ps, k', hbody, rfl, rfl⟩
    exact hbody
  · intro h
    exact ⟨rfl, forest, [], h, rfl, rfl⟩

/-- The lexemes of a source are those of the tokens in front of its end. -/
theorem lexemes_lex (source : String) :
    Token.lexemes (Token.lex source) = Token.lexemes (Token.scan 0 0 source.toList) := by
  unfold Token.lexemes Token.lex
  rw [List.filter_append, List.filter_cons_of_neg (by simp [Token.ending]), List.filter_nil,
    List.append_nil]

/-- The outline of the reader at the end of the source is the tree without comments and places. -/
theorem outline_reader (source : String) :
    (reader source).outline source =
      [⟨.program, Node.phrases source (read source).tree.children⟩] := by
  obtain ⟨-, hnested, hreg⟩ := reader_acts source
  rw [tree_eq, row_reader, Reader.outline, Reader.frames, hnested.eq_nil_of_program hreg,
    ← hreg]
  rfl

/-- **The grammar and the reader agree.** The lexemes of a source are a program if and only if
reading the source finds nothing wrong and there is no unknown character in it; and the program is
the tree without comments and places. -/
theorem isProgram_iff {source : String} {forest : List Phrase} :
    IsProgram (Token.lexemes (Token.lex source)) forest ↔
      (read source).findings = [] ∧ (∀ t ∈ Token.lex source, t.kind ≠ .unknown) ∧
        forest = Node.phrases source (read source).tree.children := by
  have hbody : ∀ t ∈ Token.scan 0 0 source.toList, t.kind ≠ .eof ∧ t ∈ Token.lex source :=
    fun t ht => ⟨Token.kind_ne_eof_of_mem_scan ht, List.mem_append_left _ ht⟩
  have hread : (Reader.start (Text.byteLength source.toList)).CompletedBy source forest _ ↔
      (reader source).findings = [] ∧ _ ∧ (reader source).outline source = _ :=
    Reader.read_completedBy_iff rfl hbody (Reader.ready_start _ _)
  have hunknown : (∀ t ∈ Token.lex source, t.kind ≠ .unknown) ↔
      ∀ t ∈ Token.scan 0 0 source.toList, t.kind ≠ .unknown := by
    rw [Token.lex, List.forall_mem_append, List.forall_mem_singleton]
    exact and_iff_left (by simp [Token.ending])
  have hforest : [(⟨.program, Node.phrases source (read source).tree.children⟩ : Level)] =
      [⟨.program, forest⟩] ↔ forest = Node.phrases source (read source).tree.children := by
    simp [eq_comm]
  rw [← completedBy_start_iff source (Text.byteLength source.toList), lexemes_lex, hread,
    hunknown, outline_reader, hforest]
  exact and_congr_left fun _ => List.reverse_eq_nil_iff.symm

end Document

end GolfAssist
