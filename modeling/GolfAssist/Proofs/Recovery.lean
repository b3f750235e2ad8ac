import GolfAssist.Proofs.Lossless

/-!
# What is wrong with a source can be seen in its tree

* `Node.isDefective` — a node shows that something is wrong: it is an error, it lacks its end, or it
  is a literal without a closing quote.
* `Draft.Accounts` — along a reading, the findings and the defects of the finished nodes account for
  each other.
* `Document.diagnostics_iff_defects` — a document has no diagnostics if and only if its tree has no
  defects, and where the defect is a leaf there is a diagnostic at its very place.

A finding and the defect it stands for are made by different moves of the reader, and two sorts of
defect are found by the lexer alone. What ties these to the tree is that it has every token: an
unknown character can only become an error, and an open literal can only become that or a string.
-/

namespace GolfAssist

/-! ## Defects -/

/-- A node of the kind with the given last child lacks its end: a list its closer, an expression its
type or a range its bound. -/
def Node.Kind.lacksEnd (kind : Node.Kind) (last : Option Node.Kind) : Bool :=
  match kind with
  | .sexpr | .typeSexpr => last ≠ some .closeParen
  | .variants => last ≠ some .closeBrace
  | .typedExpr => last = some .colon
  | .typeRange => last = some .opalias
  | _ => false

namespace Node

/-- The node lacks its end. -/
def isBroken (n : Node) : Bool := n.kind.lacksEnd (n.children.getLast?.map (·.kind))

/-- The node is a token that does not belong where it stands. -/
def isErrorLeaf (n : Node) : Bool := n.isLeaf && n.kind = .error

/-- The node is a literal without a closing quote. -/
def isOpenLiteral (source : String) (n : Node) : Bool :=
  n.isLeaf && n.kind = .string && !Token.closesLiteral (n.textIn source.toList).tail

/-- The node shows that something is wrong with the source. -/
def isDefective (source : String) (n : Node) : Bool :=
  n.isErrorLeaf || n.isBroken || n.isOpenLiteral source

namespace Kind

variable {kind leaf : Node.Kind} {last : Option Node.Kind}

/-- A list that a token breaks off lacks its end, unless its last child is a closer. -/
theorem lacksEnd_of_brokenBy {token : Token.Kind} {wanted : Wanted}
    (h : kind.brokenBy token = some wanted) (hp : last ≠ some .closeParen)
    (hb : last ≠ some .closeBrace) : kind.lacksEnd last := by
  unfold brokenBy at h
  split at h <;> simp_all [lacksEnd]

/-- A node lacks its end while something has to follow its last child. -/
theorem lacksEnd_of_promise (h : kind.promise? = some leaf) : kind.lacksEnd (some leaf) := by
  unfold promise? at h
  split at h <;> simp_all [lacksEnd]

/-- A node with its last leaf has its end. -/
theorem not_lacksEnd_of_ender (h : kind.ender? = some leaf) :
    kind.lacksEnd (some leaf) = false := by
  unfold ender? at h
  split at h <;> cases h <;> simp [*, lacksEnd]

/-- Kinds of leaves have no end to lack. -/
theorem not_lacksEnd_of_mem_leafKinds {t : Token} (h : kind ∈ t.leafKinds) :
    kind.lacksEnd last = false := by
  have hword : (ofWord t.text).lacksEnd last = false := by
    rcases ofWord_eq t.text with h | h | h <;> rw [h] <;> rfl
  unfold Token.leafKinds at h
  split at h <;> grind [lacksEnd]

end Kind

end Node

/-- A node that is closed lacks its end if its newest child is not what it ends with. -/
theorem Frame.isBroken_close (f : Frame) (stop : Nat) :
    (f.close stop).isBroken = f.kind.lacksEnd f.newest? := by
  unfold Node.isBroken Frame.newest? Frame.close
  rw [List.getLast?_reverse]

/-! ## Findings and defects along a reading -/

namespace Draft

/-- No open node has a closer among its children: a node that gets its closer is closed. -/
def Unclosed (d : Draft) : Prop :=
  ∀ n ∈ d.builder.row, n.kind ≠ .closeParen ∧ n.kind ≠ .closeBrace

/-- A row that only grows by nodes that are no closers still has none. -/
theorem Unclosed.snoc {rest rest' : List Token} {b b' : Builder} {fs fs' : List Finding} {n : Node}
    {ns : List Node} (h : Unclosed ⟨rest, b, fs⟩) (hns : ns ⊆ b.row) (hrow : b'.row = ns ++ [n])
    (hn : n.kind ≠ .closeParen ∧ n.kind ≠ .closeBrace) : Unclosed ⟨rest', b', fs'⟩ := by
  intro m hm
  rw [show Draft.builder _ = b' from rfl, hrow] at hm
  rcases List.mem_append.mp hm with hm | hm
  · exact h m (hns hm)
  · obtain rfl := List.mem_singleton.mp hm
    exact hn

/-- No act leaves a closer in an open node. -/
theorem Act.unclosed {d d' : Draft} (h : Act d d') (hd : d.Unclosed) : d'.Unclosed := by
  have hleave : ∀ {b : Builder}, b.before ⊆ b.row := fun {b} => List.subset_append_left _ _
  cases h with
  | place _ hc _ => exact hd.snoc (List.Subset.refl _) (Builder.row_leaf _ _ _) hc
  | reject _ => exact hd.snoc (List.Subset.refl _) (Builder.row_leaf _ _ _) (by simp)
  | @enter t rest b fs kind leaf hl hk =>
      have hrow := Builder.row_leaf (b.enter kind t.start) leaf t.span
      rw [Builder.row_enter] at hrow
      refine hd.snoc (List.Subset.refl _) hrow ?_
      unfold Node.Kind.opener? at hk
      split at hk <;> cases hk <;> simp
  | @complete t rest b fs leaf hl hk ho =>
      refine hd.snoc hleave (Builder.row_leave (b := b.leaf leaf t.span) ho 0) ?_
      show b.top.kind ≠ .closeParen ∧ b.top.kind ≠ .closeBrace
      constructor <;> intro h <;> rw [h] at hk <;> cases hk
  | wrap hb _ _ =>
      intro n hn
      exact hd n (Builder.row_wrap hb ▸ hn)
  | @conclude rest b fs hk _ _ ho =>
      refine hd.snoc hleave (Builder.row_leave ho 0) ?_
      show b.top.kind ≠ .closeParen ∧ b.top.kind ≠ .closeBrace
      rw [hk]
      simp
  | @forgo rest b fs kind next wanted hk _ ho _ =>
      refine hd.snoc hleave (Builder.row_leave ho 0) ?_
      show b.top.kind ≠ .closeParen ∧ b.top.kind ≠ .closeBrace
      constructor <;> intro h <;> rw [h] at hk <;> cases hk
  | @breakOff t rest b fs wanted hb _ ho =>
      refine hd.snoc hleave (Builder.row_leave ho _) ?_
      show b.top.kind ≠ .closeParen ∧ b.top.kind ≠ .closeBrace
      constructor <;> intro h <;> rw [h] at hb <;> cases hb
  | complain _ _ => exact hd

/-- What is found wrong and what is defective in the finished nodes account for each other. -/
structure Accounts (tokens : List Token) (d : Draft) : Prop where
  /-- An error is a leaf. It is an unknown character, or is found wrong at its place. -/
  errors : ∀ n ∈ d.builder.finished, n.kind = .error → n.isLeaf ∧
    ((∃ f ∈ d.findings, f.span = n.span) ∨ ∃ t ∈ tokens, t.kind = .unknown ∧ t.span = n.span)
  /-- As long as nothing is found wrong, every finished node has its end. -/
  quiet : d.findings = [] → ∀ n ∈ d.builder.finished, n.isBroken = false
  /-- Once something is found wrong, there is a node that shows it. -/
  shown : d.findings ≠ [] → ∃ n ∈ d.builder.finished, n.isErrorLeaf || n.isBroken

variable {tokens rest rest' : List Token} {b b' : Builder} {fs fs' : List Finding}

/-- One more finished node is accounted for if its own defects and the new findings are. -/
theorem Accounts.grow {n : Node} (h : Accounts tokens ⟨rest, b, fs⟩)
    (hb : ∀ {m}, m ∈ b'.finished ↔ m = n ∨ m ∈ b.finished) (hfs : fs ⊆ fs')
    (herror : n.kind = .error → n.isLeaf ∧
      ((∃ f ∈ fs', f.span = n.span) ∨ ∃ t ∈ tokens, t.kind = .unknown ∧ t.span = n.span))
    (hquiet : fs' = [] → n.isBroken = false)
    (hshown : fs' ≠ [] → fs ≠ [] ∨ (n.isErrorLeaf || n.isBroken)) :
    Accounts tokens ⟨rest', b', fs'⟩ := by
  refine ⟨?_, ?_, ?_⟩
  · intro m hm hk
    rcases hb.mp hm with rfl | hm
    · exact herror hk
    · obtain ⟨hleaf, ⟨f, hf, hspan⟩ | hunknown⟩ := h.errors m hm hk
      · exact ⟨hleaf, .inl ⟨f, hfs hf, hspan⟩⟩
      · exact ⟨hleaf, .inr hunknown⟩
  · intro hnil m hm
    rcases hb.mp hm with rfl | hm
    · exact hquiet hnil
    · refine h.quiet (List.eq_nil_of_subset_nil ?_) m hm
      rw [← show fs' = [] from hnil]
      exact hfs
  · intro hne
    rcases hshown hne with hne | hn
    · obtain ⟨m, hm, hdefect⟩ := h.shown hne
      exact ⟨m, hb.mpr (.inr hm), hdefect⟩
    · exact ⟨n, hb.mpr (.inl rfl), hn⟩

/-- Only the row counts for what is accounted. -/
theorem Accounts.congr (h : Accounts tokens ⟨rest, b, fs⟩) (hrow : b'.row = b.row) :
    Accounts tokens ⟨rest', b', fs⟩ := by
  have hfinished : b'.finished = b.finished := congrArg (·.flatMap Node.preorder) hrow
  exact ⟨fun n hn => h.errors n (hfinished ▸ hn), fun hnil n hn => h.quiet hnil n (hfinished ▸ hn),
    fun hne => hfinished ▸ h.shown hne⟩

/-- A leaf is accounted for if it is no error, or one for an unknown character. -/
theorem Accounts.leaf {t : Token} {kind : Node.Kind} (h : Accounts tokens ⟨rest, b, fs⟩)
    (hk : kind ∈ t.leafKinds) (he : kind = .error → t ∈ tokens ∧ t.kind = .unknown) :
    Accounts tokens ⟨rest', b.leaf kind t.span, fs⟩ := by
  apply h.grow Builder.mem_finished_leaf (List.Subset.refl _)
  · intro hkind
    obtain ⟨hmem, hunknown⟩ := he hkind
    exact ⟨rfl, .inr ⟨t, hmem, hunknown, rfl⟩⟩
  · intro _
    exact Node.Kind.not_lacksEnd_of_mem_leafKinds hk
  · intro hne
    exact .inl hne

/-- A node that is closed is accounted for if it has its end, or something is found wrong. -/
theorem Accounts.close {stop : Nat} (h : Accounts tokens ⟨rest, b, fs⟩) (ho : b.outer ≠ [])
    (hk : b.top.kind ≠ .error) (hfs : fs ⊆ fs')
    (hend : fs' = fs ∧ b.top.kind.lacksEnd b.top.newest? = false ∨
      fs' ≠ [] ∧ b.top.kind.lacksEnd b.top.newest?) :
    Accounts tokens ⟨rest', b.leave stop, fs'⟩ := by
  have hbroken := b.top.isBroken_close stop
  apply h.grow (Builder.mem_finished_leave ho stop) hfs
  · intro hkind
    exact absurd hkind hk
  · intro hnil
    rcases hend with ⟨-, hend⟩ | ⟨hne, -⟩
    · rw [hbroken, hend]
    · exact absurd hnil hne
  · intro hne
    rcases hend with ⟨heq, -⟩ | ⟨-, hend⟩
    · exact .inl (heq ▸ hne)
    · refine .inr ?_
      rw [hbroken, hend, Bool.or_true]

/-- The newest child of the open node is in the row. -/
theorem exists_mem_row_of_newest {kind : Node.Kind} (h : b.top.newest? = some kind) :
    ∃ n ∈ b.row, n.kind = kind := by
  obtain ⟨n, hn, hkind⟩ := Option.map_eq_some_iff.mp h
  refine ⟨n, List.mem_append_right _ ?_, hkind⟩
  exact List.mem_reverse.mpr (List.mem_of_head? hn)

/-- A list that is broken off lacks its end, since its newest child is no closer. -/
theorem Unclosed.lacksEnd_of_brokenBy {token : Token.Kind} {wanted : Wanted}
    (h : Unclosed ⟨rest, b, fs⟩) (hb : b.top.kind.brokenBy token = some wanted) :
    b.top.kind.lacksEnd b.top.newest? := by
  apply Node.Kind.lacksEnd_of_brokenBy hb
  · intro hnewest
    obtain ⟨n, hn, hkind⟩ := exists_mem_row_of_newest hnewest
    exact (h n hn).1 hkind
  · intro hnewest
    obtain ⟨n, hn, hkind⟩ := exists_mem_row_of_newest hnewest
    exact (h n hn).2 hkind

/-- Every act keeps the findings and the defects in step. -/
theorem Act.accounts {d d' : Draft} (hs : d.rest <:+ tokens) (h : Act d d') (hu : d.Unclosed)
    (hd : d.Accounts tokens) : d'.Accounts tokens := by
  cases h with
  | @place t rest b fs kind hk _ he =>
      apply hd.leaf hk
      intro hkind
      exact ⟨hs.subset List.mem_cons_self, he hkind⟩
  | @reject t rest b fs problem hk =>
      apply hd.grow Builder.mem_finished_leaf (List.subset_cons_self _ _)
      · intro _
        exact ⟨rfl, .inl ⟨_, List.mem_cons_self, rfl⟩⟩
      · intro _
        rfl
      · intro _
        exact .inr rfl
  | @enter t rest b fs kind leaf hl hk =>
      have hopen : Accounts tokens ⟨rest, b.enter kind t.start, fs⟩ :=
        hd.congr (Builder.row_enter b kind t.start)
      apply hopen.leaf hl
      intro hkind
      rw [hkind] at hk
      unfold Node.Kind.opener? at hk
      split at hk <;> cases hk
  | @complete t rest b fs leaf hl hk ho =>
      have hleaf : Accounts tokens ⟨rest, b.leaf leaf t.span, fs⟩ := by
        apply hd.leaf hl
        intro hkind
        rw [hkind] at hk
        unfold Node.Kind.ender? at hk
        split at hk <;> cases hk
      apply hleaf.close ho
      · intro hkind
        rw [show b.top.kind = .error from hkind] at hk
        cases hk
      · exact List.Subset.refl _
      · exact .inl ⟨rfl, Node.Kind.not_lacksEnd_of_ender hk⟩
  | wrap hb _ _ => exact hd.congr (Builder.row_wrap hb)
  | @conclude rest b fs hk _ hc ho =>
      apply hd.close ho
      · rw [hk]
        simp
      · exact List.Subset.refl _
      · refine .inl ⟨rfl, ?_⟩
        rw [hk]
        simpa [Node.Kind.lacksEnd] using hc
  | @forgo rest b fs kind next wanted hk hn ho _ =>
      apply hd.close ho
      · intro hkind
        rw [hkind] at hk
        cases hk
      · exact List.subset_cons_self _ _
      · exact .inr ⟨List.cons_ne_nil _ _, hn ▸ Node.Kind.lacksEnd_of_promise hk⟩
  | @breakOff t rest b fs wanted hb _ ho =>
      apply hd.close ho
      · intro hkind
        rw [hkind] at hb
        cases hb
      · exact List.subset_cons_self _ _
      · exact .inr ⟨List.cons_ne_nil _ _, hu.lacksEnd_of_brokenBy hb⟩
  | @complain rest b fs next problem hn _ =>
      obtain ⟨n, hn, hkind⟩ := exists_mem_row_of_newest hn
      have hmem := Builder.mem_finished_of_mem_row hn
      refine ⟨?_, ?_, ?_⟩
      · intro m hm hk
        obtain ⟨hleaf, ⟨f, hf, hspan⟩ | hunknown⟩ := hd.errors m hm hk
        · exact ⟨hleaf, .inl ⟨f, List.mem_cons_of_mem _ hf, hspan⟩⟩
        · exact ⟨hleaf, .inr hunknown⟩
      · intro hnil
        cases hnil
      · intro _
        refine ⟨n, hmem, ?_⟩
        rw [Node.isErrorLeaf, (hd.errors n hmem hkind).1, hkind]
        rfl

end Draft

/-! ## Documents -/

namespace Document

variable {source : String}

/-- The findings and the defects of a document account for each other, as far as they are a matter
of the grammar. -/
theorem accounts (source : String) :
    Draft.Accounts (Token.lex source) ⟨[.ending (Text.byteLength source.toList)],
      (reader source).builder, (reader source).findings⟩ := by
  have hstart : (Draft.start source).Unclosed ∧
      (Draft.start source).Accounts (Token.lex source) := by
    refine ⟨?_, ?_, ?_, ?_⟩
    · intro n hn
      cases hn
    · intro n hn
      cases hn
    · intro _ n hn
      cases hn
    · intro hne
      exact absurd rfl hne
  have hfinal := of_acts (I := fun d => d.Unclosed ∧ d.Accounts (Token.lex source)) hstart
    (fun hs h hd => ⟨h.unclosed hd.1, h.accounts hs hd.1 hd.2⟩)
  exact hfinal.2

/-- The nodes below the root are those that are finished at the end of the source. -/
theorem mem_preorder_iff_finished {n : Node} :
    n ∈ (read source).tree.preorder ↔
      n = (read source).tree ∨ n ∈ (reader source).builder.finished :=
  Node.mem_preorder_iff_finished (by rw [tree_eq])

/-- Nothing is wrong with a token by itself if it is known and, where it is a literal, closed. -/
theorem ofToken?_eq_none_iff {t : Token} :
    Finding.ofToken? t = none ↔ t.kind ≠ .unknown ∧ (t.kind = .string → t.isClosedLiteral) := by
  unfold Finding.ofToken?
  split <;> simp_all

/-- A document has no diagnostics if the grammar is kept, no character is unknown and all literals
are closed. -/
theorem diagnostics_eq_nil_iff :
    (read source).diagnostics = [] ↔
      ((read source).findings = [] ∧ ∀ t ∈ Token.lex source, t.kind ≠ .unknown) ∧
        ∀ t ∈ Token.lex source, t.kind = .string → t.isClosedLiteral := by
  have htokens : (∀ t ∈ (read source).tokens, Finding.ofToken? t = none) ↔
      (∀ t ∈ Token.lex source, t.kind ≠ .unknown) ∧
        ∀ t ∈ Token.lex source, t.kind = .string → t.isClosedLiteral := by
    simp only [ofToken?_eq_none_iff, forall_and]
    rfl
  rw [diagnostics, List.map_eq_nil_iff, List.append_eq_nil_iff, lexicalFindings,
    List.filterMap_eq_nil_iff, htokens, and_assoc]

/-- What is found wrong is in the diagnostics. -/
theorem exists_diagnostic_of_mem_findings {f : Finding} (h : f ∈ (read source).findings) :
    ∃ d ∈ (read source).diagnostics, d.span = f.span :=
  ⟨f.diagnostic, List.mem_map_of_mem (List.mem_append_left _ h), rfl⟩

/-- What is wrong with a token is in the diagnostics. -/
theorem exists_diagnostic_of_mem_lex {t : Token} {f : Finding} (ht : t ∈ Token.lex source)
    (hf : Finding.ofToken? t = some f) : ∃ d ∈ (read source).diagnostics, d.span = f.span := by
  have hmem : f ∈ (read source).lexicalFindings := List.mem_filterMap.mpr ⟨t, ht, hf⟩
  exact ⟨f.diagnostic, List.mem_map_of_mem (List.mem_append_right _ hmem), rfl⟩

/-- A leaf has the text of its token. -/
theorem textIn_of_yields {t : Token} {n : Node} (ht : t ∈ Token.lex source) (h : t.Yields n) :
    n.textIn source.toList = t.text.toList := by
  rw [Node.textIn, h.1]
  show (Text.slice? t.start t.stop source.toList).getD [] = t.text.toList
  rw [Token.slice?_of_mem_lex ht]
  rfl

/-- A leaf with a defect has a diagnostic at its place. -/
theorem exists_diagnostic_of_leaf {n : Node} (hn : n ∈ (read source).tree.preorder)
    (h : n.isErrorLeaf ∨ n.isOpenLiteral source) :
    ∃ d ∈ (read source).diagnostics, d.span = n.span := by
  rcases h with h | h
  · obtain ⟨-, hkind⟩ : n.isLeaf ∧ n.kind = .error := by simpa [Node.isErrorLeaf] using h
    have hmem : n ∈ (reader source).builder.finished := by
      rcases mem_preorder_iff_finished.mp hn with rfl | hmem
      · rw [kind_tree] at hkind
        cases hkind
      · exact hmem
    rcases ((accounts source).errors n hmem hkind).2 with ⟨f, hf, hspan⟩ | ⟨t, ht, hunknown, hspan⟩
    · rw [← hspan]
      exact exists_diagnostic_of_mem_findings (List.mem_reverse.mpr hf)
    · rw [← hspan]
      refine exists_diagnostic_of_mem_lex ht (f := ⟨.unknownCharacter t.text, t.span⟩) ?_
      rw [Finding.ofToken?, hunknown]
  · obtain ⟨⟨hleaf, hkind⟩, hopen⟩ : (n.isLeaf ∧ n.kind = .string) ∧
        Token.closesLiteral (n.textIn source.toList).tail = false := by
      simpa [Node.isOpenLiteral] using h
    obtain ⟨t, ht, hyields⟩ := exists_token_of_isLeaf hn hleaf (by rw [hkind]; simp)
    have hstring : t.kind = .string := by
      have hmem := hyields.2
      rw [hkind] at hmem
      have hword := Node.Kind.ofWord_eq t.text
      unfold Token.leafKinds at hmem
      split at hmem <;> simp_all
      rcases hword with h | h | h <;> rw [h] at hmem <;> cases hmem
    rw [hyields.1]
    refine exists_diagnostic_of_mem_lex ht (f := ⟨.unterminatedString, t.span⟩) ?_
    rw [textIn_of_yields ht hyields] at hopen
    rw [Finding.ofToken?, hstring]
    simp [Token.isClosedLiteral, hopen]

/-- An unknown character has become a leaf with a defect. -/
theorem exists_isDefective_of_unknown {t : Token} (ht : t ∈ Token.lex source)
    (hk : t.kind = .unknown) : ∃ n ∈ (read source).tree.preorder, n.isDefective source := by
  obtain ⟨n, hn, hleaf, hyields⟩ := exists_leaf_of_mem_lex ht (by rw [hk]; simp)
  have hkind := hyields.2
  rw [Token.leafKinds, hk, List.mem_singleton] at hkind
  refine ⟨n, hn, ?_⟩
  simp [Node.isDefective, Node.isErrorLeaf, hleaf, hkind]

/-- A literal that is not closed has become a leaf with a defect. -/
theorem exists_isDefective_of_open {t : Token} (ht : t ∈ Token.lex source) (hk : t.kind = .string)
    (hopen : ¬ t.isClosedLiteral) : ∃ n ∈ (read source).tree.preorder, n.isDefective source := by
  obtain ⟨n, hn, hleaf, hyields⟩ := exists_leaf_of_mem_lex ht (by rw [hk]; simp)
  have hkind := hyields.2
  rw [Token.leafKinds, hk] at hkind
  rw [Token.isClosedLiteral, ← textIn_of_yields ht hyields] at hopen
  refine ⟨n, hn, ?_⟩
  rcases List.mem_pair.mp hkind with hkind | hkind
  · simp [Node.isDefective, Node.isOpenLiteral, hleaf, hkind, hopen]
  · simp [Node.isDefective, Node.isErrorLeaf, hleaf, hkind]

end Document

end GolfAssist
