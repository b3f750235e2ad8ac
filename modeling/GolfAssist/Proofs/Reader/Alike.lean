import GolfAssist.Proofs.Reader.Tandem

/-!
# Readings that go the same way

* `Likeness` — which offsets of two sources go together, and which texts of their tokens.
* `Node.Alike`, `Builder.Alike`, `Reader.Alike` — two trees, two trees under construction, two
  readers that are the same up to their offsets and to the texts in what they report.
* `Likeness.tandem` — alike builders stay alike whatever a reader does, and so `Reader.Alike.read` —
  alike lists of tokens keep alike readers alike.
* `Document.read_alike` — sources with alike tokens have alike trees and alike findings.
* `Node.Alike.paths` — alike trees are alike place by place.

A reader computes with offsets in one way only, by taking the larger of two when it closes a node;
so all that is asked of offsets that go together is that the beginnings do, and that the larger ones
of two pairs do again.
-/

namespace GolfAssist

/-- What goes together in the readings of two sources. -/
structure Likeness where
  /-- Offsets that go together. -/
  place : Nat → Nat → Prop
  /-- Texts of tokens that go together. -/
  text : String → String → Prop
  /-- The beginnings go together. -/
  place_zero : place 0 0
  /-- With two pairs, the larger offsets of both go together. -/
  place_max {a a' b b' : Nat} : place a a' → place b b' → place (max a b) (max a' b')

variable {l : Likeness}

/-! ## Tokens -/

/-- The tokens are of one kind and stand in places that go together. Where a reader looks at their
texts, these are the same. -/
structure Token.Alike (l : Likeness) (t t' : Token) : Prop where
  kind : t'.kind = t.kind
  start : l.place t.start t'.start
  stop : l.place t.stop t'.stop
  text : l.text t.text t'.text
  text_eq : t.kind = .word ∨ t.kind = .op → t'.text = t.text

/-! ## Findings -/

/-- The problems are the same up to the texts they quote. -/
inductive Problem.Alike (l : Likeness) : Problem → Problem → Prop where
  | unterminatedString : Alike l .unterminatedString .unterminatedString
  | slashOutsideBraces : Alike l .slashOutsideBraces .slashOutsideBraces
  | bareColon : Alike l .bareColon .bareColon
  | unknownCharacter {text text' : String} (h : l.text text text') :
      Alike l (.unknownCharacter text) (.unknownCharacter text')
  | stray {text text' : String} (h : l.text text text') : Alike l (.stray text) (.stray text')
  | missing {wanted : Wanted} {found found' : Option String} (h : Option.Rel l.text found found') :
      Alike l (.missing wanted found) (.missing wanted found')

/-- The same complaint about alike tokens makes alike problems of them. -/
theorem Token.Alike.problem {t t' : Token} (h : t.Alike l t') (c : Complaint) :
    (c.problem t).Alike l (c.problem t') := by
  cases c with
  | slash => exact .slashOutsideBraces
  | colon => exact .bareColon
  | stray => exact .stray h.text
  | missing wanted =>
      rw [Complaint.problem, Complaint.problem, Problem.missingBefore, Problem.missingBefore,
        h.kind]
      split
      · exact .missing .none
      · exact .missing (.some h.text)

/-- The findings are alike problems in places that go together. -/
structure Finding.Alike (l : Likeness) (f f' : Finding) : Prop where
  problem : f.problem.Alike l f'.problem
  start : l.place f.span.start f'.span.start
  stop : l.place f.span.stop f'.span.stop

/-! ## Trees -/

/-- The trees have the same numbers and kinds in the same arrangement, and their offsets go
together. -/
inductive Node.Alike (l : Likeness) : Node → Node → Prop where
  | node {id : Nat} {kind : Node.Kind} {span span' : Span} {children children' : List Node}
      (start : l.place span.start span'.start) (stop : l.place span.stop span'.stop)
      (below : List.Forall₂ (Alike l) children children') :
      Alike l ⟨id, kind, span, children⟩ ⟨id, kind, span', children'⟩

namespace Node.Alike

variable {n n' : Node}

theorem id (h : Alike l n n') : n'.id = n.id := by cases h; rfl

theorem kind (h : Alike l n n') : n'.kind = n.kind := by cases h; rfl

theorem start (h : Alike l n n') : l.place n.span.start n'.span.start := by
  cases h with | node hstart _ _ => exact hstart

theorem stop (h : Alike l n n') : l.place n.span.stop n'.span.stop := by
  cases h with | node _ hstop _ => exact hstop

theorem children (h : Alike l n n') : List.Forall₂ (Alike l) n.children n'.children := by
  cases h with | node _ _ hbelow => exact hbelow

/-- Alike nodes have the same numbers. -/
theorem map_id {ns ns' : List Node} (h : List.Forall₂ (Alike l) ns ns') :
    ns'.map (·.id) = ns.map (·.id) := by
  induction h with
  | nil => rfl
  | cons hn _ ih => rw [List.map_cons, List.map_cons, hn.id, ih]

end Node.Alike

/-- The open nodes will be alike when they are closed in places that go together. -/
structure Frame.Alike (l : Likeness) (f f' : Frame) : Prop where
  id : f'.id = f.id
  kind : f'.kind = f.kind
  start : l.place f.start f'.start
  children : List.Forall₂ (Node.Alike l) f.children f'.children

namespace Frame.Alike

variable {f f' : Frame} {n n' : Node} {stop stop' : Nat}

theorem push (h : Alike l f f') (hn : n.Alike l n') : Alike l (f.push n) (f'.push n') :=
  ⟨h.id, h.kind, h.start, .cons hn h.children⟩

/-- The furthest ends of the children go together. -/
theorem reach (h : Alike l f f') : l.place f.reach f'.reach :=
  List.rel_foldl (fun _ _ hstop _ _ hn => l.place_max hstop hn.stop) l.place_zero h.children

/-- Closing alike nodes in places that go together makes alike trees. -/
theorem close (h : Alike l f f') (hstop : l.place stop stop') :
    (f.close stop).Alike l (f'.close stop') := by
  obtain ⟨id, kind, start, children⟩ := f
  obtain ⟨id', kind', start', children'⟩ := f'
  obtain rfl : id' = id := h.id
  obtain rfl : kind' = kind := h.kind
  exact .node h.start (l.place_max (l.place_max hstop h.reach) h.start)
    (List.rel_reverse h.children)

end Frame.Alike

/-- The trees under construction are alike, open node by open node. -/
structure Builder.Alike (l : Likeness) (b b' : Builder) : Prop where
  length : l.place b.length b'.length
  next : b'.next = b.next
  top : b.top.Alike l b'.top
  outer : List.Forall₂ (Frame.Alike l) b.outer b'.outer

/-! Each move of a builder keeps builders alike. -/

namespace Builder.Alike

variable {b b' : Builder} {span span' : Span} {stop stop' start start' : Nat}

theorem leaf (h : Alike l b b') (kind : Node.Kind) (hstart : l.place span.start span'.start)
    (hstop : l.place span.stop span'.stop) : Alike l (b.leaf kind span) (b'.leaf kind span') := by
  refine ⟨h.length, congrArg (· + 1) h.next, h.top.push ?_, h.outer⟩
  rw [h.next]
  exact .node hstart hstop .nil

theorem enter (h : Alike l b b') (kind : Node.Kind) (hstart : l.place start start') :
    Alike l (b.enter kind start) (b'.enter kind start') :=
  ⟨h.length, congrArg (· + 1) h.next, ⟨h.next, rfl, hstart, .nil⟩, .cons h.top h.outer⟩

theorem leave (h : Alike l b b') (hstop : l.place stop stop') :
    Alike l (b.leave stop) (b'.leave stop') := by
  have houter := h.outer
  unfold Builder.leave
  cases ho : b.outer with
  | nil =>
      rw [ho, List.forall₂_nil_left_iff] at houter
      rw [houter]
      exact h
  | cons f fs =>
      rw [ho, List.forall₂_cons_left_iff] at houter
      obtain ⟨f', fs', hf, hfs, ho'⟩ := houter
      rw [ho']
      exact ⟨h.length, h.next, hf.push (h.top.close hstop), hfs⟩

/-- Where one of the builders can wrap its newest child, the other one can. -/
theorem wrap? (h : Alike l b b') (kind : Node.Kind) :
    Option.Rel (Alike l) (b.wrap? kind) (b'.wrap? kind) := by
  have hchildren := h.top.children
  unfold Builder.wrap?
  cases hc : b.top.children with
  | nil =>
      rw [hc, List.forall₂_nil_left_iff] at hchildren
      rw [hchildren]
      exact .none
  | cons n ns =>
      rw [hc, List.forall₂_cons_left_iff] at hchildren
      obtain ⟨n', ns', hn, hns, hc'⟩ := hchildren
      rw [hc']
      exact .some ⟨h.length, congrArg (· + 1) h.next, ⟨h.next, rfl, hn.start, .cons hn .nil⟩,
        .cons ⟨h.top.id, h.top.kind, h.top.start, hns⟩ h.outer⟩

/-- Alike builders finish alike trees. -/
theorem finish (h : Alike l b b') : b.finish.Alike l b'.finish := by
  have hclose : ∀ {f f' : Frame} {fs fs' : List Frame}, f.Alike l f' →
      List.Forall₂ (Frame.Alike l) fs fs' →
      (closeAll b.length f fs).Alike l (closeAll b'.length f' fs') := by
    intro f f' fs fs' hf hfs
    induction hfs generalizing f f' with
    | nil =>
        rw [closeAll, closeAll, hf.id, hf.kind]
        exact .node hf.start h.length (List.rel_reverse hf.children)
    | cons hg _ ih => exact ih (hg.push (hf.close h.length))
  exact hclose h.top h.outer

end Builder.Alike

/-! ## Readers -/

/-- The readers have come equally far in the same way. -/
structure Reader.Alike (l : Likeness) (r r' : Reader) : Prop where
  builder : r.builder.Alike l r'.builder
  comments : List.Forall₂ (Token.Alike l) r.comments r'.comments
  findings : List.Forall₂ (Finding.Alike l) r.findings r'.findings
  expects : r'.expects = r.expects

/-- What is alike stays alike whatever a reader does. -/
def Likeness.tandem (l : Likeness) : Tandem where
  token := Token.Alike l
  builder := Builder.Alike l
  finding := Finding.Alike l
  kind_eq h := h.kind
  text_eq h := h.text_eq
  complain c h := ⟨h.problem c, h.start, h.stop⟩
  region_eq h := h.top.kind
  depth_eq h := h.outer.length_eq.symm
  leaf kind h ht := h.leaf kind ht.start ht.stop
  enter kind h ht := h.enter kind ht.start
  leave h := h.leave l.place_zero
  leaveAt h ht := h.leave ht.start
  wrap h _ := h.wrap? .typedExpr

/-- **A whole reading.** Alike lists of tokens keep alike readers alike. -/
theorem Reader.Alike.read {r r' : Reader} {last last' : Token} {ts ts' : List Token}
    (hlast : last.Alike l last') (hts : List.Forall₂ (Token.Alike l) ts ts') (h : Alike l r r') :
    Alike l (Reader.read last r ts) (Reader.read last' r' ts') := by
  have hpaired : Paired l.tandem r r' := ⟨h.builder, h.comments, h.findings, h.expects⟩
  have hread := hpaired.read hlast hts
  exact ⟨hread.builder, hread.comments, hread.findings, hread.expects⟩

/-- **Sources with alike tokens** have alike trees and alike findings. -/
theorem Document.read_alike {source source' : String}
    (h : List.Forall₂ (Token.Alike l) (Token.lex source) (Token.lex source')) :
    (read source).tree.Alike l (read source').tree ∧
      List.Forall₂ (Finding.Alike l) (read source).findings (read source').findings := by
  have hlast : (Token.ending (Text.byteLength source.toList)).Alike l
      (.ending (Text.byteLength source'.toList)) := by
    have hreverse := List.rel_reverse h
    rw [Token.lex, Token.lex, List.reverse_concat, List.reverse_concat] at hreverse
    exact (List.forall₂_cons.mp hreverse).1
  have hstart : (Reader.start (Text.byteLength source.toList)).Alike l
      (.start (Text.byteLength source'.toList)) :=
    ⟨⟨hlast.start, rfl, ⟨rfl, rfl, l.place_zero, .nil⟩, .nil⟩, .nil, .nil, rfl⟩
  have hread := Reader.Alike.read hlast h hstart
  exact ⟨hread.builder.finish, List.rel_reverse hread.findings⟩

/-! ## Places of trees -/

/-- The places have alike nodes, and alike nodes above them. -/
structure Node.Path.Alike (l : Likeness) (p p' : Node.Path) : Prop where
  node : p.node.Alike l p'.node
  above : List.Forall₂ (Node.Alike l) p.above p'.above

/-- The parents of alike places have the same number. -/
theorem Node.Path.Alike.parent {p p' : Node.Path} (h : p.Alike l p') :
    p'.parent?.map (·.id) = p.parent?.map (·.id) := by
  rw [parent?, parent?, ← List.head?_map, ← List.head?_map, Node.Alike.map_id h.above]

namespace Node.Alike

mutual

/-- Alike trees that hang below alike nodes are alike place by place. -/
theorem pathsBelow {above above' : List Node} (ha : List.Forall₂ (Alike l) above above') :
    (n n' : Node) → Alike l n n' →
      List.Forall₂ (Path.Alike l) (Node.pathsBelow above n) (Node.pathsBelow above' n')
  | ⟨id, kind, span, children⟩, ⟨_, _, span', children'⟩, .node hstart hstop hbelow => by
      have hroot : Alike l ⟨id, kind, span, children⟩ ⟨id, kind, span', children'⟩ :=
        .node hstart hstop hbelow
      rw [Node.pathsBelow, Node.pathsBelow]
      exact .cons ⟨hroot, ha⟩ (forestPaths (.cons hroot ha) children children' hbelow)

/-- Alike neighbouring trees that hang below alike nodes are alike place by place. -/
theorem forestPaths {above above' : List Node} (ha : List.Forall₂ (Alike l) above above') :
    (ns ns' : List Node) → List.Forall₂ (Alike l) ns ns' →
      List.Forall₂ (Path.Alike l) (Node.forestPaths above ns) (Node.forestPaths above' ns')
  | [], [], .nil => by
      rw [Node.forestPaths, Node.forestPaths]
      exact .nil
  | n :: ns, n' :: ns', .cons hn hns => by
      rw [Node.forestPaths, Node.forestPaths]
      exact List.rel_append (pathsBelow ha n n' hn) (forestPaths ha ns ns' hns)

end

/-- Alike trees are alike place by place. -/
theorem paths {n n' : Node} (h : Alike l n n') :
    List.Forall₂ (Path.Alike l) n.paths n'.paths :=
  pathsBelow .nil n n' h

end Node.Alike

end GolfAssist
