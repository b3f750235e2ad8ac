import GolfAssist.Completion.Context
import GolfAssist.Proofs.Recovery
import GolfAssist.Proofs.Tree.Innermost
import Mathlib.Data.List.Nodup

/-!
# Where unclosed lists end

* `Node.lacks` — a node is a list without its closer.
* `Node.EndsForced` — such a node ends at the token that forced it closed: the first one behind its
  last leaf that is no comment, and one that cannot belong to it.
* `Draft.Forced` — along a reading, all finished lists without a closer end so, and at every token
  as many closers have been reported missing as there are lists without one that end there.
* `Document.unclosed_extent` — so it is in every document; and where a list of types is still open
  at the end of the source, a cursor there stands in a type.

One token may break off many lists, one inside the other, and each of them ends where the token
starts. That is why findings and nodes are counted token by token: breaking a list off adds one to
both counts of the same token, and no other act touches any of them.
-/

namespace GolfAssist

/-! ## Missing closers -/

/-- The words in which the message begins that something is missing. -/
def Wanted.complaint (wanted : Wanted) : String := "expected " ++ wanted.describe ++ ", found"

namespace Problem

/-- The message that something is missing begins with the complaint about it. -/
theorem message_missing (wanted : Wanted) (found : Option String) :
    ∃ rest, (message (.missing wanted found)).toList = wanted.complaint.toList ++ ' ' :: rest := by
  cases found with
  | none =>
      refine ⟨"end of input".toList, ?_⟩
      show ("expected " ++ wanted.describe ++ ", found end of input").toList = _
      simp [Wanted.complaint]
  | some text =>
      refine ⟨("`" ++ text ++ "`").toList, ?_⟩
      show ("expected " ++ wanted.describe ++ ", found `" ++ text ++ "`").toList = _
      simp [Wanted.complaint]

/-- A message begins with the complaint about a closer if that closer is missing. -/
theorem complaint_prefix_iff {wanted : Wanted} (hw : wanted = .closeParen ∨ wanted = .closeBrace)
    (problem : Problem) :
    wanted.complaint.toList <+: problem.message.toList ↔ problem.closer? = some wanted := by
  cases problem with
  | missing other found =>
      obtain ⟨rest, hrest⟩ := message_missing other found
      rw [hrest]
      rcases hw with rfl | rfl <;> cases other <;>
        simp [Wanted.complaint, Wanted.describe, closer?]
  | unknownCharacter text =>
      show _ <+: ("unexpected char '" ++ text ++ "'").toList ↔ _
      simp [Wanted.complaint, closer?]
  | stray text =>
      show _ <+: ("unexpected `" ++ text ++ "`").toList ↔ _
      simp [Wanted.complaint, closer?]
  | unterminatedString =>
      show _ <+: "unterminated string literal".toList ↔ _
      simp [Wanted.complaint, closer?]
  | slashOutsideBraces =>
      show _ <+: "unexpected `/` outside of `\x7b \x7d`".toList ↔ _
      simp [Wanted.complaint, closer?]
  | bareColon =>
      show _ <+: "expected expression before `:`".toList ↔ _
      rcases hw with rfl | rfl <;> simp [Wanted.complaint, Wanted.describe, closer?]

end Problem

/-- No token misses a closer by itself. -/
theorem Finding.closer?_of_ofToken? {t : Token} {f : Finding} (h : Finding.ofToken? t = some f) :
    f.problem.closer? = none := by
  unfold Finding.ofToken? at h
  split at h
  · cases h
    rfl
  · split at h
    · cases h
    · cases h
      rfl
  · cases h

/-! ## Lists without a closer -/

namespace Node.Kind

/-- The closer that a list of the kind has to end with. -/
def wants? : Node.Kind → Option Wanted
  | .sexpr | .typeSexpr => some .closeParen
  | .variants => some .closeBrace
  | _ => none

/-- The tokens that end a list of the kind without its closer. -/
def forcedBy : Node.Kind → List Token.Kind
  | .sexpr => [.eof, .closeBrace]
  | .variants => [.eof, .closeParen]
  | .typeSexpr => [.eof, .closeBrace, .slash, .semicolon]
  | _ => []

/-- A list that a token breaks off wants its closer, and is forced by the token. -/
theorem forced_of_brokenBy {kind : Node.Kind} {token : Token.Kind} {wanted : Wanted}
    (h : kind.brokenBy token = some wanted) :
    kind.wants? = some wanted ∧ token ∈ kind.forcedBy ∧ token ≠ .lineComment := by
  unfold brokenBy at h
  split at h <;> simp_all [wants?, forcedBy]

end Node.Kind

/-- The first of the tokens from the offset on that is no comment. -/
def Token.behind? (tokens : List Token) (offset : Nat) : Option Token :=
  tokens.find? fun t => offset ≤ t.start && !t.isTrivia

namespace Node

/-- The node is a list without the closer that it wants. -/
def lacks (wanted : Wanted) (n : Node) : Bool := n.kind.wants? = some wanted && n.isBroken

/-- The node ends where the first token starts that comes behind its last leaf and is no comment,
and that token cannot belong to it. -/
def EndsForced (tokens : List Token) (n : Node) : Prop :=
  ∃ leaf t, n.leaves.getLast? = some leaf ∧ Token.behind? tokens leaf.span.stop = some t ∧
    n.span.stop = t.start ∧ t.kind ∈ n.kind.forcedBy

/-- A node that has its end lacks no closer. -/
theorem lacks_of_not_isBroken {n : Node} (h : n.isBroken = false) (wanted : Wanted) :
    n.lacks wanted = false := by
  rw [lacks, h, Bool.and_false]

/-- A node that is no list lacks no closer. -/
theorem lacks_of_wants?_none {n : Node} (h : n.kind.wants? = none) (wanted : Wanted) :
    n.lacks wanted = false := by
  simp [lacks, h]

end Node

/-! ## Tokens -/

namespace Token

variable {source : String}

/-- Tokens are told apart by their starts. -/
theorem span_eq_iff {t u : Token} (ht : t ∈ lex source) (hu : u ∈ lex source) :
    t.span = u.span ↔ t.start = u.start := by
  constructor
  · intro h
    exact congrArg Span.start h
  · intro h
    have hnodup : ((lex source).map (·.start)).Nodup :=
      List.pairwise_map.mpr ((lex_pairwise_start source).imp Nat.ne_of_lt)
    rw [List.inj_on_of_nodup_map hnodup ht hu h]

/-- A token that is no comment is the first such one behind the token in front of it. -/
theorem behind?_of_split {front rest : List Token} {last t : Token}
    (h : lex source = front ++ last :: t :: rest) (hpos : last.start < last.stop)
    (ht : t.isTrivia = false) : behind? (lex source) last.stop = some t := by
  have hord := lex_pairwise source
  rw [h] at hord
  obtain ⟨-, hright, hacross⟩ := List.pairwise_append.mp hord
  refine List.find?_eq_some_iff_append.mpr ⟨?_, front ++ [last], rest, by rw [h]; simp, ?_⟩
  · have hle := List.rel_of_pairwise_cons hright List.mem_cons_self
    simp [hle, ht]
  · intro u hu
    have hlt : u.start < last.stop := by
      rcases List.mem_append.mp hu with hu | hu
      · have hle := hacross u hu last List.mem_cons_self
        have : u.start ≤ u.stop := Nat.le_add_right _ _
        omega
      · obtain rfl := List.mem_singleton.mp hu
        exact hpos
    simp [hlt]

end Token

/-! ## Findings and lists, token by token -/

namespace Draft

variable {source : String} {rest rest' : List Token} {b b' : Builder} {fs : List Finding}

/-- The last leaf of an open node is what has become of the token in front of those that are
left. -/
theorem Tracks.exists_last {tokens : List Token} (h : Tracks tokens ⟨rest, b, fs⟩)
    (hn : b.top.children ≠ []) (stop : Nat) :
    ∃ front last leaf, tokens = front ++ last :: rest ∧
      (b.top.close stop).leaves.getLast? = some leaf ∧ last.Yields leaf := by
  obtain ⟨placed, hsplit, hpairs⟩ := h
  obtain ⟨leaves, leaf, hleaves⟩ :=
    (List.eq_nil_or_concat _).resolve_left (b.top.close stop).leaves_ne_nil
  rw [List.concat_eq_append] at hleaves
  rw [show Draft.builder _ = b from rfl, Builder.fringe_eq hn stop, hleaves, ← List.append_assoc,
    ← List.forall₂_reverse_iff, List.reverse_concat] at hpairs
  obtain ⟨last, front, hyields, -, hplaced⟩ := List.forall₂_cons_right_iff.mp hpairs
  refine ⟨front.reverse, last, leaf, ?_, ?_, hyields⟩
  · rw [hsplit, ← List.reverse_reverse placed, hplaced]
    simp
  · rw [hleaves, List.getLast?_concat]

/-- The finding is that the closer is missing, at the place of the token. -/
def misses (wanted : Wanted) (t : Token) (f : Finding) : Bool :=
  f.span = t.span && f.problem.closer? = some wanted

/-- The node is a list without the closer, and ends where the token starts. -/
def breaksAt (wanted : Wanted) (t : Token) (n : Node) : Bool :=
  n.lacks wanted && n.span.stop = t.start

/-- Lists without their closers end where they have to, and their closers are reported there. -/
structure Forced (source : String) (d : Draft) : Prop where
  /-- Every finished list without its closer ends at the token that forced it. -/
  ends : ∀ wanted, ∀ n ∈ d.builder.finished, n.lacks wanted → n.EndsForced (Token.lex source)
  /-- At each token, as many closers are reported missing as lists without one end there. -/
  counts : ∀ wanted, ∀ t ∈ Token.lex source,
    d.findings.countP (misses wanted t) = d.builder.finished.countP (breaksAt wanted t)

/-- One more node that lacks no closer changes nothing. -/
theorem Forced.grow {n : Node} (h : Forced source ⟨rest, b, fs⟩)
    (hb : b'.finished.Perm (n :: b.finished)) (hn : ∀ wanted, n.lacks wanted = false) :
    Forced source ⟨rest', b', fs⟩ := by
  refine ⟨?_, ?_⟩
  · intro wanted m hm hlacks
    rcases List.mem_cons.mp (hb.mem_iff.mp hm) with rfl | hm
    · rw [hn wanted] at hlacks
      cases hlacks
    · exact h.ends wanted m hm hlacks
  · intro wanted t ht
    rw [hb.countP_eq, List.countP_cons_of_neg (by simp [breaksAt, hn wanted])]
    exact h.counts wanted t ht

/-- One more finding that is about no closer changes nothing. -/
theorem Forced.report {f : Finding} (h : Forced source ⟨rest, b, fs⟩)
    (hf : f.problem.closer? = none) : Forced source ⟨rest, b, f :: fs⟩ := by
  refine ⟨h.ends, ?_⟩
  intro wanted t ht
  rw [List.countP_cons_of_neg (by simp [misses, hf])]
  exact h.counts wanted t ht

/-- Only the row counts for lists without closers. -/
theorem Forced.congr (h : Forced source ⟨rest, b, fs⟩) (hrow : b'.row = b.row) :
    Forced source ⟨rest', b', fs⟩ := by
  have hfinished : b'.finished = b.finished := congrArg (·.flatMap Node.preorder) hrow
  exact ⟨hfinished ▸ h.ends, hfinished ▸ h.counts⟩

/-- A leaf lacks no closer. -/
theorem Forced.leaf {t : Token} {kind : Node.Kind} (h : Forced source ⟨rest, b, fs⟩)
    (hk : kind ∈ t.leafKinds) : Forced source ⟨rest', b.leaf kind t.span, fs⟩ :=
  h.grow (b.finished_leaf_perm kind t.span)
    (Node.lacks_of_not_isBroken (Node.Kind.not_lacksEnd_of_mem_leafKinds hk))

/-- A list that is broken off counts once among the nodes and once among the findings, at the token
that breaks it off. -/
theorem Forced.breakOff {t : Token} {n : Node} {wanted : Wanted}
    (h : Forced source ⟨t :: rest, b, fs⟩) (ht : t ∈ Token.lex source)
    (hw : n.kind.wants? = some wanted) (hn : n.isBroken) (hstop : n.span.stop = t.start)
    (hends : n.EndsForced (Token.lex source)) (hb : b'.finished.Perm (n :: b.finished)) :
    Forced source ⟨t :: rest, b', ⟨.missingBefore wanted t, t.span⟩ :: fs⟩ := by
  refine ⟨?_, ?_⟩
  · intro other m hm hlacks
    rcases List.mem_cons.mp (hb.mem_iff.mp hm) with rfl | hm
    · exact hends
    · exact h.ends other m hm hlacks
  · intro other u hu
    have hcloser : (Problem.missingBefore wanted t).closer? = some wanted := by
      unfold Node.Kind.wants? at hw
      split at hw <;> cases hw <;> rfl
    have hsame : misses other u ⟨.missingBefore wanted t, t.span⟩ = breaksAt other u n := by
      simp [misses, breaksAt, Node.lacks, hcloser, hw, hn, hstop, Token.span_eq_iff ht hu,
        Bool.and_comm]
    rw [hb.countP_eq, List.countP_cons, List.countP_cons, hsame, h.counts other u hu]

/-- Every act keeps the ends of lists and the reports of their closers in step. -/
theorem Act.forced {d d' : Draft} (hs : d.rest <:+ Token.lex source) (h : Act d d')
    (hlaid : d.LaidOut source) (hu : d.Unclosed) (htracks : d.Tracks (Token.lex source))
    (hd : d.Forced source) : d'.Forced source := by
  have hlaid' := h.laidOut hs hlaid
  cases h with
  | place hk _ _ => exact hd.leaf hk
  | reject hk hp => exact (hd.leaf hk).report hp
  | @enter t rest b fs kind leaf hl hk =>
      have hopen : Forced source ⟨rest, b.enter kind t.start, fs⟩ :=
        hd.congr (Builder.row_enter b kind t.start)
      exact hopen.leaf hl
  | @complete t rest b fs leaf hl hk ho =>
      have hleaf : Forced source ⟨rest, b.leaf leaf t.span, fs⟩ := hd.leaf hl
      refine hleaf.grow (Builder.finished_leave_perm (b := b.leaf leaf t.span) ho 0)
        (Node.lacks_of_not_isBroken ?_)
      rw [Frame.isBroken_close]
      exact Node.Kind.not_lacksEnd_of_ender hk
  | wrap hb _ _ => exact hd.congr (Builder.row_wrap hb)
  | @conclude rest b fs hk _ _ ho =>
      refine hd.grow (Builder.finished_leave_perm ho 0) (Node.lacks_of_wants?_none ?_)
      show b.top.kind.wants? = none
      rw [hk]
      rfl
  | @forgo rest b fs kind next wanted hk _ ho _ hp =>
      have hclosed : Forced source ⟨rest, b.leave 0, fs⟩ := by
        refine hd.grow (Builder.finished_leave_perm ho 0) (Node.lacks_of_wants?_none ?_)
        show b.top.kind.wants? = none
        unfold Node.Kind.promise? at hk
        split at hk <;> simp_all [Node.Kind.wants?]
      exact hclosed.report hp
  | @breakOff t rest b fs wanted hb hn ho =>
      obtain ⟨hw, hforced, hcomment⟩ := Node.Kind.forced_of_brokenBy hb
      obtain ⟨front, last, leaf, hsplit, hleaf, hyields⟩ := htracks.exists_last hn t.start
      have hbroken : (b.top.close t.start).isBroken := by
        rw [Frame.isBroken_close]
        exact hu.lacksEnd_of_brokenBy hb
      have hstop : (b.top.close t.start).span.stop = t.start := by
        have hmem : b.top.close t.start ∈ (b.leave t.start).row := by
          rw [Builder.row_leave ho]
          exact List.mem_append_right _ List.mem_cons_self
        have hle := hlaid'.ahead _ hmem t List.mem_cons_self
        have hge : t.start ≤ max (max t.start b.top.reach) b.top.start := by omega
        exact Nat.le_antisymm hle hge
      have hbehind : Token.behind? (Token.lex source) leaf.span.stop = some t := by
        rw [hyields.1]
        exact Token.behind?_of_split hsplit (start_lt_stop_of_suffix ⟨front, hsplit.symm⟩ hyields.2)
          (by simpa [Token.isTrivia] using hcomment)
      exact hd.breakOff (hs.subset List.mem_cons_self) hw hbroken hstop
        ⟨leaf, t, hleaf, hbehind, hstop, hforced⟩ (Builder.finished_leave_perm ho _)
  | complain _ _ hp => exact hd.report hp

end Draft

/-! ## Cursors in types -/

namespace Completion

/-- Inside of a type, a type can be typed, or the name of a variable directly behind its sigil. -/
theorem classifyBehind_of_within {tree : Node} {cursor : Nat}
    (h : (tree.resolve cursor .before).within .typeSexpr) (explicit : Bool) (nearest : List Char) :
    ∃ c, classifyBehind tree cursor explicit nearest = some c ∧
      (c.context = .typePosition ∨ c.context = .variableReference) := by
  unfold classifyBehind
  dsimp only
  rw [if_pos h]
  split
  · exact ⟨_, rfl, .inr rfl⟩
  · split <;> exact ⟨_, rfl, .inl rfl⟩

end Completion

/-! ## Documents -/

namespace Document

variable {source : String}

/-- In a document, lists without their closers end where they have to, and their closers are
reported there. -/
theorem forced (source : String) :
    Draft.Forced source ⟨[.ending (Text.byteLength source.toList)], (reader source).builder,
      (reader source).findings⟩ := by
  have hstart : (Draft.start source).LaidOut source ∧ (Draft.start source).Unclosed ∧
      (Draft.start source).Tracks (Token.lex source) ∧ (Draft.start source).Forced source := by
    refine ⟨laidOut_start source, ?_, ⟨[], rfl, .nil⟩, ?_, ?_⟩
    · intro n hn
      cases hn
    · intro wanted n hn
      cases hn
    · intro wanted t _
      rfl
  have hfinal := of_acts (I := fun d => d.LaidOut source ∧ d.Unclosed ∧
      d.Tracks (Token.lex source) ∧ d.Forced source) hstart
    (fun hs h ⟨hlaid, hu, htracks, hd⟩ => ⟨h.laidOut hs hlaid, h.unclosed hu, h.tracks htracks,
      h.forced hs hlaid hu htracks hd⟩)
  exact hfinal.2.2.2

/-- The root is no list. -/
theorem lacks_tree (source : String) (wanted : Wanted) :
    (read source).tree.lacks wanted = false :=
  Node.lacks_of_wants?_none (by rw [kind_tree]; rfl) wanted

/-- The lists without closers that end at a token are among the finished nodes. -/
theorem countP_preorder (wanted : Wanted) (t : Token) :
    (read source).tree.preorder.countP (Draft.breaksAt wanted t) =
      (reader source).builder.finished.countP (Draft.breaksAt wanted t) := by
  rw [Node.preorder_eq, List.countP_cons_of_neg (by simp [Draft.breaksAt, lacks_tree]), tree_eq,
    Builder.finished]

/-- The complaints about a closer at a token are what the grammar has to say about it there. -/
theorem countP_diagnostics {wanted : Wanted}
    (hw : wanted = .closeParen ∨ wanted = .closeBrace) (t : Token) :
    (read source).diagnostics.countP
        (fun d => d.span = t.span && wanted.complaint.toList.isPrefixOf d.message.toList) =
      (reader source).findings.countP (Draft.misses wanted t) := by
  have hsame : ∀ fs : List Finding, (fs.map (·.diagnostic)).countP
      (fun d => d.span = t.span && wanted.complaint.toList.isPrefixOf d.message.toList) =
        fs.countP (Draft.misses wanted t) := by
    intro fs
    rw [List.countP_map]
    apply List.countP_congr
    intro f _
    simp [Draft.misses, Finding.diagnostic, Problem.complaint_prefix_iff hw]
  -- no token has a missing closer by itself
  have hlexical : (read source).lexicalFindings.countP (Draft.misses wanted t) = 0 := by
    rw [List.countP_eq_zero]
    intro f hf
    obtain ⟨u, -, hu⟩ := List.mem_filterMap.mp hf
    simp [Draft.misses, Finding.closer?_of_ofToken? hu]
  rw [diagnostics, hsame, List.countP_append, hlexical, Nat.add_zero]
  exact List.countP_reverse

/-- A list of types that reaches the end of the source has a cursor there in it. -/
theorem within_typeSexpr {n : Node} (hn : n ∈ (read source).tree.preorder)
    (hk : n.kind = .typeSexpr) (hstop : n.span.stop = Text.byteLength source.toList) :
    ((read source).tree.resolve (Text.byteLength source.toList) .before).within .typeSexpr := by
  have hpos := (laidOut_of_mem_preorder hn (by simp [hk])).1.start_lt_stop
  have hcovers : Bias.before.Covers n.span (Text.byteLength source.toList) := by
    rw [← hstop]
    exact ⟨hpos, Nat.le_refl _⟩
  have habove := Node.mem_ancestors_resolve (inRow_children source) hn hcovers
  exact List.any_eq_true.mpr ⟨n, habove, by simp [hk]⟩

end Document

end GolfAssist
