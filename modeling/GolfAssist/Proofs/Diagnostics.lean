import GolfAssist.Proofs.Reader.Draft

/-!
# Where diagnostics point, and in which order they come

* `Draft.PointsAtTokens` — all that has been found wrong is found at tokens of the source. Every act
  keeps that: it reports the next token, or the next one that is no comment.
* `Document.exists_token_of_mem_diagnostics` — so every diagnostic of a document is about a token,
  be it the one that marks the end.
* `Draft.FoundInOrder` — what has been found wrong starts no further on than the next token that is
  no comment, and what is found later starts no earlier.
* `Document.diagnostics_in_order` — so what the grammar has to say comes in the order of the source,
  and what is wrong with the tokens by themselves comes behind it, in that order too.

An act may report a token that it does not place, and more than one act may report the same token:
that is why the starts need not increase. They never go back, because all acts look at the same
place, the next token that is no comment, and that only moves on.
-/

namespace GolfAssist

namespace Draft

variable {source : String}

/-- Everything that has been found wrong is found at a token of the source. -/
def PointsAtTokens (source : String) (d : Draft) : Prop :=
  ∀ f ∈ d.findings, ∃ t ∈ Token.lex source, f.span = t.span

/-- Every act reports tokens that are left. -/
theorem Act.pointsAtTokens {d d' : Draft} (hs : d.rest <:+ Token.lex source) (h : Act d d')
    (hd : d.PointsAtTokens source) : d'.PointsAtTokens source := by
  have hcons : ∀ {d d' : Draft} {t : Token} {problem : Problem}, d.PointsAtTokens source →
      t ∈ Token.lex source → d'.findings = ⟨problem, t.span⟩ :: d.findings →
      d'.PointsAtTokens source := by
    intro d d' t problem hd ht hfindings f hf
    rw [hfindings] at hf
    rcases List.mem_cons.mp hf with rfl | hf
    · exact ⟨t, ht, rfl⟩
    · exact hd f hf
  cases h with
  | place => exact hd
  | reject => exact hcons hd (hs.subset List.mem_cons_self) rfl
  | enter => exact hd
  | complete => exact hd
  | wrap => exact hd
  | conclude => exact hd
  | forgo _ _ _ hr => exact hcons hd (hs.subset (List.mem_of_find?_eq_some hr)) rfl
  | breakOff => exact hcons hd (hs.subset List.mem_cons_self) rfl
  | complain _ hr => exact hcons hd (hs.subset (List.mem_of_find?_eq_some hr)) rfl

/-! ## The order of findings -/

/-- What has been found wrong comes in the order of the source. -/
structure FoundInOrder (d : Draft) : Prop where
  /-- What is found later starts no earlier; the newest comes first. -/
  ordered : d.findings.Pairwise fun newer older => older.span.start ≤ newer.span.start
  /-- Nothing that is found starts behind a token that is left, comments apart. -/
  reached : ∀ f ∈ d.findings, ∀ t ∈ d.rest, t.isTrivia = false → f.span.start ≤ t.start

namespace FoundInOrder

variable {rest rest' : List Token} {b b' : Builder} {fs : List Finding}

/-- Fewer tokens may be left. -/
theorem mono (h : FoundInOrder ⟨rest, b, fs⟩) (hrest : rest' ⊆ rest) :
    FoundInOrder ⟨rest', b', fs⟩ :=
  ⟨h.ordered, fun f hf t ht => h.reached f hf t (hrest ht)⟩

/-- The next token that is no comment may be reported. -/
theorem report {next : Token} (h : FoundInOrder ⟨rest, b, fs⟩) (hs : rest <:+ Token.lex source)
    (hnext : rest.find? (!·.isTrivia) = some next) (problem : Problem) :
    FoundInOrder ⟨rest, b', ⟨problem, next.span⟩ :: fs⟩ := by
  obtain ⟨hkind, comments, later, hsplit, hcomments⟩ := List.find?_eq_some_iff_append.mp hnext
  have hmem : next ∈ rest := List.mem_of_find?_eq_some hnext
  refine ⟨List.pairwise_cons.mpr ⟨?_, h.ordered⟩, ?_⟩
  · intro f hf
    exact h.reached f hf next hmem (by simpa using hkind)
  · intro f hf t ht htrivia
    rcases List.mem_cons.mp hf with rfl | hf
    · show next.start ≤ t.start
      have hord := (Token.lex_pairwise_start source).sublist hs.sublist
      rw [hsplit] at hord
      rcases List.mem_append.mp (hsplit ▸ ht) with ht | ht
      · simpa [htrivia] using hcomments t ht
      · rcases List.mem_cons.mp ht with rfl | ht
        · exact Nat.le_refl _
        · exact Nat.le_of_lt
            (List.rel_of_pairwise_cons (List.pairwise_append.mp hord).2.1 ht)
    · exact h.reached f hf t ht htrivia

end FoundInOrder

/-- Every act reports the next token that is no comment, or none. -/
theorem Act.foundInOrder {d d' : Draft} (hs : d.rest <:+ Token.lex source) (h : Act d d')
    (hd : d.FoundInOrder) : d'.FoundInOrder := by
  have hhead : ∀ {t : Token} {rest : List Token}, t.kind ≠ .lineComment →
      (t :: rest).find? (!·.isTrivia) = some t := by
    intro t rest ht
    exact List.find?_cons_of_pos (by simpa [Token.isTrivia] using ht)
  cases h with
  | place => exact hd.mono (List.subset_cons_self _ _)
  | @reject t rest b fs problem hk _ =>
      have ht : t.kind ≠ .lineComment := by
        intro ht
        simp [Token.leafKinds, ht] at hk
      have hreport : FoundInOrder ⟨t :: rest, b, ⟨problem, t.span⟩ :: fs⟩ :=
        hd.report hs (hhead ht) problem
      exact hreport.mono (List.subset_cons_self _ _)
  | enter => exact hd.mono (List.subset_cons_self _ _)
  | complete => exact hd.mono (List.subset_cons_self _ _)
  | wrap => exact hd.mono (List.Subset.refl _)
  | conclude => exact hd.mono (List.Subset.refl _)
  | forgo _ _ _ hr _ => exact hd.report hs hr _
  | @breakOff t _ _ _ wanted hb _ _ =>
      have ht : t.kind ≠ .lineComment := by
        intro ht
        rw [ht] at hb
        unfold Node.Kind.brokenBy at hb
        split at hb <;> simp_all
      exact hd.report hs (hhead ht) _
  | complain _ hr _ => exact hd.report hs hr _

end Draft

/-- What is wrong with a token by itself is found at the token. -/
theorem Finding.span_of_ofToken? {t : Token} {f : Finding} (h : Finding.ofToken? t = some f) :
    f.span = t.span := by
  unfold Finding.ofToken? at h
  split at h
  · cases h
    rfl
  · split at h
    · cases h
    · cases h
      rfl
  · cases h

namespace Document

variable {source : String}

/-- What the grammar has to say is about a token. -/
theorem exists_token_of_mem_findings {f : Finding} (h : f ∈ (read source).findings) :
    ∃ t ∈ Token.lex source, f.span = t.span := by
  have hpoints := @of_acts source (Draft.PointsAtTokens source)
    (fun _ hf => absurd hf List.not_mem_nil) Draft.Act.pointsAtTokens
  exact hpoints f (List.mem_reverse.mp h)

/-- **Every diagnostic is about a token.** -/
theorem exists_token_of_mem_diagnostics {d : Diagnostic} (h : d ∈ (read source).diagnostics) :
    ∃ t ∈ Token.lex source, d.span = t.span := by
  obtain ⟨f, hf, rfl⟩ := List.mem_map.mp h
  rcases List.mem_append.mp hf with hf | hf
  · exact exists_token_of_mem_findings hf
  · obtain ⟨t, ht, hfound⟩ := List.mem_filterMap.mp hf
    exact ⟨t, ht, Finding.span_of_ofToken? hfound⟩

/-- What the grammar has to say comes in the order of the source. -/
theorem findings_pairwise (source : String) :
    (read source).findings.Pairwise fun a b => a.span.start ≤ b.span.start := by
  have hfound := @of_acts source Draft.FoundInOrder ⟨.nil, fun _ hf => absurd hf List.not_mem_nil⟩
    Draft.Act.foundInOrder
  exact List.pairwise_reverse.mpr hfound.ordered

/-- What is wrong with the tokens by themselves comes in the order of the source, and at most once
for each token. -/
theorem lexicalFindings_pairwise (source : String) :
    (read source).lexicalFindings.Pairwise fun a b => a.span.start < b.span.start := by
  refine List.pairwise_filterMap.mpr ((Token.lex_pairwise_start source).imp ?_)
  intro t u hlt f hf g hg
  rw [Finding.span_of_ofToken? hf, Finding.span_of_ofToken? hg]
  exact hlt

/-- **Diagnostics point at tokens and come in the order of the source.** First comes what the
grammar has to say, then what is wrong with the tokens by themselves. Each diagnostic has the span
of a token, which may be the one that marks the end. In the first part the starts never decrease, in
the second one they increase. -/
theorem diagnostics_in_order (source : String) :
    (read source).diagnostics =
        (read source).findings.map (·.diagnostic) ++
          (read source).lexicalFindings.map (·.diagnostic) ∧
      (∀ d ∈ (read source).diagnostics, ∃ t ∈ Token.lex source, d.span = t.span) ∧
      ((read source).findings.map (·.diagnostic)).Pairwise
        (fun a b => a.span.start ≤ b.span.start) ∧
      ((read source).lexicalFindings.map (·.diagnostic)).Pairwise
        (fun a b => a.span.start < b.span.start) :=
  ⟨List.map_append, fun _ => exists_token_of_mem_diagnostics,
    List.pairwise_map.mpr (findings_pairwise source),
    List.pairwise_map.mpr (lexicalFindings_pairwise source)⟩

/-- A colon without a value and without a type, in a list that is not closed: the unknown character
is reported where the type is missing, and once more by itself behind all that the grammar says. -/
theorem diagnostics_in_order_unknown :
    (read "(:é").diagnostics =
        [⟨"expected expression before `:`", ⟨1, 2⟩⟩, ⟨"expected type, found `é`", ⟨2, 4⟩⟩,
          ⟨"expected `)`, found end of input", ⟨4, 4⟩⟩] ++ [⟨"unexpected char 'é'", ⟨2, 4⟩⟩] ∧
      (∃ t ∈ Token.lex "(:é", (⟨4, 4⟩ : Span) = t.span) ∧
      ((read "(:é").findings.map (·.diagnostic)).Pairwise
        (fun a b => a.span.start ≤ b.span.start) := by
  obtain ⟨hparts, htokens, hordered, -⟩ := diagnostics_in_order "(:é"
  refine ⟨hparts, htokens ⟨"expected `)`, found end of input", ⟨4, 4⟩⟩ ?_, hordered⟩
  rw [hparts]
  exact List.mem_append_left _ (.tail _ (.tail _ (.head _)))

end Document

end GolfAssist
