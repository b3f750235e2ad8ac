import GolfAssist.Proofs.Acceptance
import GolfAssist.Proofs.Reader.Behind
import GolfAssist.Proofs.Token.Break
import GolfAssist.Proofs.Tree.Building

/-!
# One source below another

* `Reader.AtRoot` — nothing but the root is open, and an expression may follow.
* `Reader.read_eq_of_completedBy` — what is complete by itself is read in the same way when
  something follows that is neither a colon nor the dots of a range, and leaves the reader at the
  root.
* `Reader.read_attach` — at the root it does not matter whether comments have been placed.
* `Document.reading_composes` — if a source without diagnostics has another one below it, the tree
  of both has the trees of one and of the other below its root, and the diagnostics are those of the
  other.
* `Document.lexing_composes` — for the tokens alone, and what is reported about them, it is enough
  that no literal of the first source lacks its closing quote.

The reading of the first source is neutral in the end because the grammar demands it: a reader that
nothing more completes has closed all its lists and waits for nothing. Comments at its end are not
placed then, but the next token would place them where its end does.
-/

namespace GolfAssist

namespace Reader

variable {r r' : Reader} {t next next' last : Token} {source : String} {forest : List Phrase}

/-! ## Lists of tokens one after the other -/

/-- The next token that is no comment is in the first list, or else in the second. -/
theorem upcoming_append (last : Token) (a b : List Token) :
    upcoming last (a ++ b) = upcoming (upcoming last b) a := by
  unfold upcoming
  rw [List.find?_append]
  cases a.find? (!·.isTrivia) <;> rfl

/-- Two lists are read one after the other, the first one in view of the second. -/
theorem read_append (last : Token) (r : Reader) (a b : List Token) :
    read last r (a ++ b) = read last (read (upcoming last b) r a) b := by
  induction a generalizing r with
  | nil => rfl
  | cons t a ih => rw [List.cons_append, read, read, upcoming_append, ih]

/-! ## What follows a complete program -/

section Lookahead

variable (hnext : next.kind = .eof)

include hnext

/-- No type comes when the source ends. -/
theorem awaitType_findings_ne_nil (r : Reader) : (r.awaitType next).findings ≠ [] := by
  rw [awaitType_of_not_startsType (by simp [hnext, Token.Kind.startsType]), endType_findings]
  exact List.cons_ne_nil _ _

/-- A type begins in front of what are no dots as it begins at the end of the source. -/
theorem beginType_of_eof (hdots : next'.isDots = false) (r : Reader) :
    r.beginType t next' = r.beginType t next := by
  have heof : next.isDots = false := by simp [Token.isDots, hnext]
  rw [beginType, beginType, hdots, heof]

variable (hcolon : next'.kind ≠ .colon)

include hcolon

/-- A value ends in front of what is no colon as it ends with the source. -/
theorem endValue_of_eof (r : Reader) : r.endValue next' = r.endValue next := by
  rw [endValue_of_ne_colon hcolon, endValue_of_ne_colon (by simp [hnext])]

/-- An expression that is fine at the end of the source begins in the same way elsewhere. -/
theorem beginExpr_of_eof (h : (r.beginExpr t next).findings = []) :
    r.beginExpr t next' = r.beginExpr t next := by
  unfold beginExpr at h ⊢
  split at h
  · rfl
  · rfl
  · exact absurd h (awaitType_findings_ne_nil hnext _)
  · exact endValue_of_eof hnext hcolon _

variable (hdots : next'.isDots = false)

include hdots

/-- An item that is fine at the end of the source is the same elsewhere. -/
theorem item_of_eof (h : (r.item t next).findings = []) : r.item t next' = r.item t next := by
  have hclose : r.closeValue t next' = r.closeValue t next := endValue_of_eof hnext hcolon _
  unfold item at h ⊢
  split at h
  · rw [beginType_of_eof hnext hdots]
  · split at h
    · exact hclose
    · rfl
    · rfl
    · exact beginExpr_of_eof hnext hcolon h
  · split at h
    · exact hclose
    · rfl
    · rfl
    · exact beginExpr_of_eof hnext hcolon h
  · split at h
    · rfl
    · rfl
    · rfl
    · rfl
    · rfl
    · exact beginExpr_of_eof hnext hcolon h

/-- **Looking ahead.** A step that is fine at the end of the source is the same in front of a token
that is neither a colon nor dots. -/
theorem step_of_eof (h : (r.step t next).findings = []) : r.step t next' = r.step t next := by
  unfold step at h ⊢
  by_cases ht : t.isTrivia
  · rw [if_pos ht, if_pos ht]
  · rw [if_neg ht] at h ⊢
    rw [if_neg ht]
    split at h
    · exact item_of_eof hnext hcolon hdots h
    · exact absurd h (awaitType_findings_ne_nil hnext _)
    · exact beginType_of_eof hnext hdots _
    · have hne : next.kind ≠ .integer := by simp [hnext]
      rw [rangeDots, if_neg hne, endType_findings] at h
      cases h
    · rfl

end Lookahead

/-! ## What leaves nothing open -/

/-- Nothing but the root is open, and an expression may follow. -/
structure AtRoot (r : Reader) : Prop where
  expects : r.expects = .item
  region : r.region = .program
  outer : r.builder.outer = []

/-- A reader that nothing more completes is at the root. -/
theorem atRoot_of_completedBy_nil (hlast : last.kind = .eof) (hr : r.Ready last)
    (h : r.CompletedBy source forest []) : r.AtRoot := by
  have hdue := hr.due
  have hx : r.expects = .item := by
    unfold Due at hdue
    split at hdue
    · assumption
    · simp [hlast] at hdue
    · simp [hlast, Token.Kind.startsType] at hdue
    · simp [hlast, Token.isDots] at hdue
    · simp [hlast] at hdue
  obtain ⟨f, fs, ho, hf⟩ := r.exists_outline source
  rw [completedBy_item_iff hx ho, Level.closes_nil_iff, Level.ends_nil_iff, hf] at h
  exact ⟨hx, h.2.1, hr.nested.eq_nil_of_program h.2.1⟩

/-- **What is complete by itself** is read in the same way when something follows that is neither a
colon nor dots, and leaves the reader at the root. -/
theorem read_eq_of_completedBy (hlast : last.kind = .eof) (hcolon : next.kind ≠ .colon)
    (hdots : next.isDots = false) {body : List Token}
    (hbody : ∀ t ∈ body, t.kind ≠ .eof ∧ t.kind ≠ .unknown ∧ t ∈ Token.lex source)
    (hr : r.Ready (upcoming last body)) (h : r.CompletedBy source forest (Token.lexemes body)) :
    read next r body = read last r body ∧ (read last r body).AtRoot := by
  induction body generalizing r with
  | nil => exact ⟨rfl, atRoot_of_completedBy_nil hlast hr h⟩
  | cons t body ih =>
      have hrest : ∀ u ∈ body, u.kind ≠ .eof ∧ u.kind ≠ .unknown ∧ u ∈ Token.lex source :=
        fun u hu => hbody u (List.mem_cons_of_mem _ hu)
      obtain ⟨he, hu, ht⟩ := hbody t List.mem_cons_self
      rw [read, read]
      by_cases hc : t.isTrivia
      · rw [upcoming_of_isTrivia hc] at hr
        rw [lexemes_cons_of_isTrivia hc] at h
        rw [step, step, if_pos hc, if_pos hc]
        exact ih hrest ⟨hr.nested, hr.due⟩ h
      · have hc : t.isTrivia = false := by simpa using hc
        rw [upcoming_of_not_isTrivia hc] at hr
        rw [lexemes_cons hc he] at h
        have hturn : Turn t (upcoming last body) r _ := step_turn hr hc
        have hheads : (upcoming last body).Heads (Token.lexemes body) := by
          have hbody := heads_upcoming hlast fun u hu => (hrest u hu).1
          rwa [upcoming_append, upcoming_of_not_isTrivia (isTrivia_of_eof hlast)] at hbody
        have hstep := (hturn.completedBy_iff hr ht hc he hu hheads).mp h
        have heq : r.step t (upcoming next body) = r.step t (upcoming last body) := by
          -- the two differ only if all of the other tokens are comments
          unfold upcoming at hstep ⊢
          cases hfind : body.find? (!·.isTrivia) with
          | some u => rfl
          | none =>
              rw [hfind] at hstep
              exact step_of_eof hlast hcolon hdots hstep.1
        rw [heq]
        exact ih hrest (hturn.ready hr) hstep

/-! ## Comments at the root -/

/-- At the root, a token that is no comment has the same effect when comments have been placed. -/
theorem AtRoot.step_attach (h : r.AtRoot) (ht : t.isTrivia = false) :
    r.attach.step t next = r.step t next := by
  have hitem : r.attach.item t next = r.item t next := by
    unfold item
    rw [attach_region, h.region]
    dsimp only
    split <;> rfl
  have hx : r.attach.expects = .item := h.expects
  rw [step, step, ht, hx, h.expects]
  simpa [h.outer, unwind] using hitem

/-- At the root, the end of the source places the comments in front of it. -/
theorem AtRoot.step_eof (h : r.AtRoot) (ht : t.kind = .eof) : r.step t next = r.attach := by
  have htrivia := isTrivia_of_eof ht
  rw [step, h.expects]
  simp [htrivia, h.outer, unwind, item, h.region, ht]

/-- Placing comments does not lead away from the root. -/
theorem AtRoot.attach (h : r.AtRoot) : r.attach.AtRoot :=
  ⟨h.expects, r.attach_region.trans h.region, r.attach_outer.trans h.outer⟩

/-- At the root, it does not matter whether comments have been placed before. -/
theorem AtRoot.read_eq (h : r.AtRoot) (h' : r'.AtRoot) (hattach : r.attach = r'.attach)
    {ts : List Token} (hts : ∃ t ∈ ts, t.isTrivia = false) : read last r ts = read last r' ts := by
  induction ts generalizing r r' with
  | nil => simp at hts
  | cons t ts ih =>
      rw [read, read]
      by_cases ht : t.isTrivia
      · rw [step, step, if_pos ht, if_pos ht]
        apply ih
        · exact ⟨h.expects, h.region, h.outer⟩
        · exact ⟨h'.expects, h'.region, h'.outer⟩
        · have hleaf : ∀ r : Reader, (r.hold t).attach =
              { r.attach with builder := r.attach.builder.leaf .lineComment t.span } := fun _ => rfl
          rw [hleaf, hleaf, hattach]
        · simpa [ht] using hts
      · have ht : t.isTrivia = false := by simpa using ht
        rw [← h.step_attach ht, ← h'.step_attach ht, hattach]

end Reader

/-! ## Findings of tokens -/

/-- The diagnostic further on by a distance. -/
def Diagnostic.movedBy (distance : Nat) (d : Diagnostic) : Diagnostic :=
  { d with span := d.span.movedBy distance }

/-- What is wrong with a token by itself moves with it. -/
theorem Finding.ofToken?_movedBy (distance : Nat) (t : Token) :
    ofToken? (t.movedBy distance) = (ofToken? t).map (movedBy distance) := by
  have hspan := @Token.span_movedBy distance t
  unfold ofToken?
  rw [hspan, show (t.movedBy distance).kind = t.kind from rfl]
  split
  · rfl
  · split <;> simp_all [Token.isClosedLiteral, Token.movedBy, movedBy]
  · rfl

namespace Document

variable {source below : String}

/-! ## Readings one below the other -/

/-- The site of a source below another one. -/
def site (source below : String) : Site where
  length := Text.byteLength source.toList + 1 + Text.byteLength below.toList
  numbers := (read source).tree.size - 1
  distance := Text.byteLength source.toList + 1
  older := (reader source).builder.top.children

/-- The tokens of a source without diagnostics are read in the same way whatever is known of the
length of the whole, and whatever follows that is neither a colon nor dots. They leave the reader at
the root. -/
theorem read_scan (h : (read source).diagnostics = []) (length : Nat) {last next : Token}
    (hlast : last.kind = .eof) (hcolon : next.kind ≠ .colon) (hdots : next.isDots = false) :
    Reader.read next (.start length) (Token.scan 0 0 source.toList) =
        Reader.read last (.start length) (Token.scan 0 0 source.toList) ∧
      (Reader.read last (.start length) (Token.scan 0 0 source.toList)).AtRoot := by
  obtain ⟨⟨hfindings, hunknown⟩, -⟩ := diagnostics_eq_nil_iff.mp h
  have hprogram := isProgram_iff.mpr ⟨hfindings, hunknown, rfl⟩
  rw [lexemes_lex] at hprogram
  refine Reader.read_eq_of_completedBy hlast hcolon hdots ?_ (Reader.ready_start _ _)
    ((completedBy_start_iff source length).mpr hprogram)
  intro t ht
  have hmem : t ∈ Token.lex source := List.mem_append_left _ ht
  exact ⟨Token.kind_ne_eof_of_mem_scan ht, hunknown t hmem, hmem⟩

/-- The reader in front of the end of the source. -/
def readerBefore (source : String) : Reader :=
  .read (.ending (Text.byteLength source.toList)) (.start (Text.byteLength source.toList))
    (Token.scan 0 0 source.toList)

/-- In front of the end of a source without diagnostics the reader is at the root, and the end
places the last comments. -/
theorem reader_eq_attach (h : (read source).diagnostics = []) :
    reader source = (readerBefore source).attach ∧ (readerBefore source).AtRoot := by
  have heof : (Token.ending (Text.byteLength source.toList)).kind = .eof := rfl
  have hroot : (readerBefore source).AtRoot :=
    (read_scan h _ heof (show Token.kind (.ending 0) ≠ .colon by simp [Token.ending]) rfl).2
  refine ⟨?_, hroot⟩
  rw [reader, Token.lex, Reader.read_append,
    Reader.upcoming_of_not_isTrivia (Reader.isTrivia_of_eof heof)]
  exact hroot.step_eof heof

/-- Behind a source without diagnostics, the next one finds what a reader has at its start. -/
theorem behind_start (h : (read source).diagnostics = []) (below : String) (length : Nat) :
    (reader source).behind (.here (site source below).length) =
      (Reader.start length).behind (site source below) := by
  obtain ⟨-, hnested, hreg⟩ := reader_acts source
  have houter := hnested.eq_nil_of_program hreg
  rw [Reader.frames, houter] at hnested
  obtain ⟨hid, hkind, hstart⟩ := hnested
  obtain ⟨heq, hroot⟩ := reader_eq_attach h
  have hcomments : (reader source).comments = [] := by rw [heq]; rfl
  have hfindings : (reader source).findings = [] :=
    List.reverse_eq_nil_iff.mp (diagnostics_eq_nil_iff.mp h).1.1
  have hexpects : (reader source).expects = .item := by rw [heq]; exact hroot.expects
  have hnext : (reader source).builder.next = 1 + ((read source).tree.size - 1) := by
    have hpos : 0 < (read source).tree.size := by simp [Node.size, Node.paths_eq]
    rw [next_reader]
    omega
  have htop : (reader source).builder.top.behind (.here (site source below).length) [] =
      ⟨0, .program, 0, (reader source).builder.top.children⟩ := by
    have hchildren : ∀ ns : List Node,
        ns.map (·.atSite (.here (site source below).length)) ++ [] = ns := by
      simp [Node.atSite_here]
    rw [Frame.behind, hid, hkind, hstart]
    exact congrArg (Frame.mk 0 .program 0) (hchildren _)
  simp only [Reader.behind, Builder.behind, houter, htop, hcomments, hfindings, hexpects, hnext]
  rfl

/-- The literals of a source without diagnostics are closed. -/
theorem closesLiteral_of_mem_scan (h : (read source).diagnostics = []) {t : Token}
    (ht : t ∈ Token.scan 0 0 source.toList) (hk : t.kind = .string) :
    Token.closesLiteral t.text.toList.tail :=
  (diagnostics_eq_nil_iff.mp h).2 t (List.mem_append_left _ ht) hk

/-- At the end of a source without diagnostics, the reader has what the tokens leave behind in a
longer source as well, once comments are placed. -/
theorem behind_here (h : (read source).diagnostics = []) (length : Nat) :
    (reader source).behind (.here length) =
      (Reader.read (.ending (Text.byteLength source.toList)) (.start length)
        (Token.scan 0 0 source.toList)).attach := by
  have hread := @Reader.read_behind (.here length) (.ending (Text.byteLength source.toList))
    (.start (Text.byteLength source.toList)) (Token.scan 0 0 source.toList)
  have hmap : ∀ ts : List Token, ts.map (·.movedBy (Site.here length).distance) = ts :=
    fun ts => List.map_id' ts
  rw [hmap] at hread
  rw [(reader_eq_attach h).1, Reader.behind_attach, readerBefore, hread]
  rfl

/-- **Reading one source below another.** Behind a source without diagnostics, a source that begins
with neither a colon nor dots is read as it is read on its own. -/
theorem reader_append (h : (read source).diagnostics = [])
    (hnext : ∀ u ∈ (Token.lex below).find? (!·.isTrivia), u.kind ≠ .colon ∧ u.isDots = false) :
    reader (source ++ "\n" ++ below) = (reader below).behind (site source below) := by
  have hlex := Token.lex_append_newline (fun t => closesLiteral_of_mem_scan h) below
  have hlength : Text.byteLength (source ++ "\n" ++ below).toList = (site source below).length :=
    Token.byteLength_append_newline source below
  have hending : Token.ending (site source below).length =
      (Token.ending (Text.byteLength below.toList)).movedBy (site source below).distance := by
    rw [Token.movedBy, Token.ending, Token.ending, site,
      Nat.add_comm _ (Text.byteLength below.toList)]
  have hupcoming := hnext _ (Reader.find?_eq_upcoming rfl (Token.scan 0 0 below.toList))
  obtain ⟨hread, hroot⟩ := @read_scan source h (site source below).length
    (.ending (Text.byteLength source.toList)) (.movedBy (site source below).distance _) rfl
    hupcoming.1 hupcoming.2
  have hsome : ∃ t ∈ (Token.lex below).map (·.movedBy (site source below).distance),
      t.isTrivia = false :=
    ⟨_, List.mem_map_of_mem (List.mem_append_right _ (List.mem_singleton_self _)), rfl⟩
  calc reader (source ++ "\n" ++ below)
      = Reader.read (.ending (site source below).length)
          (Reader.read (.ending (Text.byteLength source.toList)) (.start (site source below).length)
            (Token.scan 0 0 source.toList))
          ((Token.lex below).map (·.movedBy (site source below).distance)) := by
        rw [reader, hlex, hlength, Reader.read_append, ← hread, hending, ← Reader.upcoming_movedBy]
        rfl
    _ = Reader.read (.ending (site source below).length)
          ((reader source).behind (.here (site source below).length))
          ((Token.lex below).map (·.movedBy (site source below).distance)) := by
        rw [behind_here h]
        exact hroot.read_eq hroot.attach rfl hsome
    _ = (reader below).behind (site source below) := by
        rw [behind_start h below (Text.byteLength below.toList), hending]
        exact (Reader.read_behind _ _ _).symm

/-- The children of the root are those of the reader at the end of the source. -/
theorem children_tree (source : String) :
    (read source).tree.children = (reader source).builder.top.children.reverse := by
  rw [tree_eq, row_reader]

/-- The end of a source has nothing wrong with it, so all that is wrong with its tokens is wrong
with those that are scanned. -/
theorem lexicalFindings_eq (source : String) :
    (read source).lexicalFindings = (Token.scan 0 0 source.toList).filterMap Finding.ofToken? := by
  rw [lexicalFindings, show (read source).tokens = Token.lex source from rfl, Token.lex,
    List.filterMap_append]
  exact List.append_nil _

/-- What is wrong with the tokens of two sources, one below the other, is wrong with those of the
one or of the other, if the literals of the first one are closed. -/
theorem lexicalFindings_append_newline
    (hclosed : ∀ t ∈ Token.scan 0 0 source.toList, t.kind = .string →
      Token.closesLiteral t.text.toList.tail) (below : String) :
    (read (source ++ "\n" ++ below)).lexicalFindings = (read source).lexicalFindings ++
      (read below).lexicalFindings.map (·.movedBy (Text.byteLength source.toList + 1)) := by
  have hlex := Token.lex_append_newline hclosed below
  rw [lexicalFindings_eq source, lexicalFindings,
    show (read (source ++ "\n" ++ below)).tokens = _ from hlex, List.filterMap_append,
    List.filterMap_map, lexicalFindings, List.map_filterMap]
  refine congrArg (_ ++ ·) (List.filterMap_congr fun t _ => ?_)
  exact Finding.ofToken?_movedBy _ t

/-- What is wrong with the tokens by themselves is wrong with those of the source below, when
nothing is wrong with those of the source above. -/
theorem lexicalFindings_append (h : (read source).diagnostics = []) (below : String) :
    (read (source ++ "\n" ++ below)).lexicalFindings =
      (read below).lexicalFindings.map (·.movedBy (Text.byteLength source.toList + 1)) := by
  have hnone : (read source).lexicalFindings = [] :=
    (List.append_eq_nil_iff.mp (List.map_eq_nil_iff.mp h)).2
  rw [lexicalFindings_append_newline (fun t => closesLiteral_of_mem_scan h) below, hnone,
    List.nil_append]

/-- Where no literal is reported to lack its closing quote, all literals are closed. -/
theorem closesLiteral_of_not_reported
    (h : ∀ f ∈ (read source).lexicalFindings, f.problem ≠ .unterminatedString) {t : Token}
    (ht : t ∈ Token.scan 0 0 source.toList) (hk : t.kind = .string) :
    Token.closesLiteral t.text.toList.tail := by
  by_contra hopen
  have hfound : Finding.ofToken? t = some ⟨.unterminatedString, t.span⟩ := by
    simp [Finding.ofToken?, hk, Token.isClosedLiteral, hopen]
  refine h ⟨.unterminatedString, t.span⟩ ?_ rfl
  rw [lexicalFindings_eq]
  exact List.mem_filterMap.mpr ⟨t, ht, hfound⟩

/-- **Tokens compose at line breaks.** If no literal of a source is reported to lack its closing
quote, then a source below it has its tokens behind those of the first source, whose end is dropped;
they stand further on by the length of the first source and the line break. What is reported about
the tokens of both is what is reported about those of the one and then, as much further on, about
those of the other. -/
theorem lexing_composes {source below : String}
    (h : ∀ f ∈ (read source).lexicalFindings, f.problem ≠ .unterminatedString) :
    Token.lex (source ++ "\n" ++ below) = (Token.lex source).dropLast ++
        (Token.lex below).map (·.movedBy (Text.byteLength source.toList + 1)) ∧
      (read (source ++ "\n" ++ below)).lexicalFindings.map (·.diagnostic) =
        (read source).lexicalFindings.map (·.diagnostic) ++
          ((read below).lexicalFindings.map (·.diagnostic)).map
            (·.movedBy (Text.byteLength source.toList + 1)) := by
  have hclosed := fun t => @closesLiteral_of_not_reported source h t
  have hbody : (Token.lex source).dropLast = Token.scan 0 0 source.toList := List.dropLast_concat
  constructor
  · rw [hbody, Token.lex_append_newline hclosed below]
  · rw [lexicalFindings_append_newline hclosed below, List.map_append, List.map_map, List.map_map]
    rfl

/-- The first source has an unknown character and ends with a minus sign. The infinity below is not
taken for a part of it, and the literal behind that is reported where it stands in the whole. -/
theorem lexing_composes_sign :
    (∀ f ∈ (read "é-").lexicalFindings, f.problem ≠ .unterminatedString) ∧
      Token.lex "é-\noo\"a" = [⟨.unknown, 0, "é"⟩, ⟨.op, 2, "-"⟩, ⟨.integer, 4, "oo"⟩,
        ⟨.string, 6, "\"a"⟩, ⟨.eof, 8, ""⟩] ∧
      (read "é-\noo\"a").lexicalFindings.map (·.diagnostic) =
        [⟨"unexpected char 'é'", ⟨0, 2⟩⟩, ⟨"unterminated string literal", ⟨6, 8⟩⟩] := by
  have habove : (read "é-").lexicalFindings = [⟨.unknownCharacter "é", ⟨0, 2⟩⟩] := rfl
  have hreported : ∀ f ∈ (read "é-").lexicalFindings, f.problem ≠ .unterminatedString := by
    rw [habove]
    decide
  exact ⟨hreported, @lexing_composes "é-" "oo\"a" hreported⟩

end Document

end GolfAssist
