import GolfAssist.Proofs.Leaves

/-!
# The shapes of nodes

* `Node.Shaped` — a node has the children that its kind promises: lists are items between an opener
  and a closer, expressions with a type and ranges are two nodes joined by a sign, and no other node
  but the root has children at all. Slashes and types stand where they may.
* `Node.Stage` — the children of an open node so far, by what the next token has to be.
* `Node.Whole` — the children with which an open node can be closed.
* `Node.Whole.shaped` — a node that is closed with them is shaped.

A shape says of all children at once what a reader finds out child by child. The stages are the
steps in between: each of their rules adds the newest child, so that every move of a reader is one
of them, and what they add up to is proved here, on lists alone. As in an open node, the newest
child comes first.
-/

namespace GolfAssist

/-- What has to come behind the sign that joins two nodes, where the sign has to come. -/
def Expectation.afterSign? : Expectation → Option Expectation
  | .colon => some .type
  | .dots => some .bound
  | _ => none

/-- Behind a sign comes no other sign, and no item. -/
theorem Expectation.afterSign?_of_afterSign? {x y : Expectation} (h : x.afterSign? = some y) :
    y.afterSign? = none ∧ y ≠ .item := by
  cases x <;> simp_all [afterSign?] <;> rw [← h] <;> simp

namespace Node

/-! ## Classes of nodes -/

namespace Kind

/-- Nodes of the kind are values, which can be given a type. -/
def isValue : Kind → Bool
  | .variable | .integer | .string | .builtin | .nullary | .opalias | .sexpr | .variants
  | .error => true
  | _ => false

/-- Nodes of the kind are types and nothing else. -/
def isTypeOnly : Kind → Bool
  | .typeName | .typeSexpr | .typeRange => true
  | _ => false

/-- Nodes of the kind can stand where a type is read. -/
def isType (kind : Kind) : Bool := kind.isTypeOnly || kind = .integer

/-- Nodes of the kind can be among the items of a list. -/
def mayHold (list kind : Kind) : Bool :=
  match list with
  | .program | .sexpr | .variants =>
    kind.isValue || kind = .typedExpr || kind.isTypeOnly || kind = .semicolon
      || kind = .lineComment || list = .variants && kind = .slash
  | .typeSexpr => kind.isType || kind = .error || kind = .lineComment
  | _ => false

/-- The node can stand in front of the sign that joins a node of the kind. -/
def isFirst (kind : Kind) (n : Node) : Bool :=
  match kind with
  | .typedExpr => n.kind.isValue
  | .typeRange => n.kind = .integer
  | _ => false

/-- The node is the sign that joins a node of the kind. -/
def isSign (source : String) (kind : Kind) (n : Node) : Bool :=
  match kind with
  | .typedExpr => n.kind = .colon
  | .typeRange => n.kind = .opalias && n.text source = ".."
  | _ => false

/-- The node can stand behind the sign that joins a node of the kind. -/
def isLast (kind : Kind) (n : Node) : Bool :=
  match kind with
  | .typedExpr => n.kind.isType
  | .typeRange => n.kind = .integer
  | _ => false

end Kind

/-- There is nothing but comments. -/
def AllComments (ns : List Node) : Prop := ∀ n ∈ ns, n.kind = .lineComment

/-- The node is a colon that stands without a value in front of it. -/
def isBareColon (source : String) (n : Node) : Bool := n.kind = .error && n.text source = ":"

/-! ## Shapes -/

/-- The opener of a list, items of the list, and it may be its closer. -/
def Bracketed (list : Kind) (ns : List Node) : Prop :=
  ∃ first items, list.opener? = some first.kind ∧ (∀ n ∈ items, list.mayHold n.kind) ∧
    (ns = first :: items ∨ ∃ last, list.ender? = some last.kind ∧ ns = first :: items ++ [last])

/-- A node, a sign and, it may be, one node more, with nothing but comments between them. -/
def Joined (source : String) (kind : Kind) (ns : List Node) : Prop :=
  ∃ first comments sign, kind.isFirst first ∧ AllComments comments ∧ kind.isSign source sign ∧
    (ns = first :: comments ++ [sign] ∨
      ∃ comments' last, AllComments comments' ∧ kind.isLast last ∧
        ns = first :: comments ++ sign :: comments' ++ [last])

/-- The children that a node of the kind can have. -/
def Kind.Shape (source : String) (kind : Kind) (ns : List Node) : Prop :=
  match kind with
  | .program => ∀ n ∈ ns, kind.mayHold n.kind
  | .sexpr | .variants | .typeSexpr => Bracketed kind ns
  | .typedExpr | .typeRange => Joined source kind ns
  | _ => ns = []

/-- A type can stand between these children of a node of the kind: as the last one if it belongs to
an expression, anywhere in a list of types, and elsewhere behind a colon without a value. -/
def IsTypePlace (source : String) (kind : Kind) (before after : List Node) : Prop :=
  kind = .typedExpr ∧ after = [] ∨ kind = .typeSexpr ∨
    kind.holdsValues ∧ ∃ front colon comments,
      before = front ++ colon :: comments ∧ colon.isBareColon source ∧ AllComments comments

/-- All types among the children of a node of the kind stand where they may. -/
def TypesInPlace (source : String) (kind : Kind) (ns : List Node) : Prop :=
  ∀ before n after, ns = before ++ n :: after → n.kind.isTypeOnly →
    IsTypePlace source kind before after

/-- The node has the shape that its kind promises. -/
structure Shaped (source : String) (n : Node) : Prop where
  /-- Its children are those of its kind. -/
  shape : n.kind.Shape source n.children
  /-- Slashes divide variants and nothing else. -/
  slashes : ∀ c ∈ n.children, c.kind = .slash → n.kind = .variants
  /-- Types stand where they may. -/
  types : TypesInPlace source n.kind n.children

/-- Nodes of the kind never have children. -/
def Kind.isBare (kind : Kind) : Bool := !kind.isComposite && kind ≠ .program

/-- A leaf of a kind that never has children is shaped. -/
theorem shaped_leaf {source : String} {n : Node} (hk : n.kind.isBare) (hn : n.children = []) :
    n.Shaped source := by
  refine ⟨?_, by simp [hn], by simp [TypesInPlace, hn]⟩
  rw [hn]
  cases hkind : n.kind <;> rw [hkind] at hk <;> first | rfl | cases hk

/-! ## Stages of open nodes -/

/-- Nodes of the kind are lists between brackets. -/
def Kind.isList : Kind → Bool
  | .sexpr | .variants | .typeSexpr => true
  | _ => false

/-- The children of an open node so far, the newest first, when the next token that belongs to the
node has to be what the expectation says. -/
inductive Stage (source : String) : Kind → Expectation → List Node → Prop where
  /-- Nothing of the source has been read. -/
  | root : Stage source .program .item []
  /-- A list begins with its opener. -/
  | opener {kind : Kind} {n : Node} (hk : kind.isList) (hn : kind.opener? = some n.kind) :
      Stage source kind .item [n]
  /-- Comments can come at any time. -/
  | comment {kind : Kind} {x : Expectation} {ns : List Node} {n : Node} (h : Stage source kind x ns)
      (hn : n.kind = .lineComment) : Stage source kind x (n :: ns)
  /-- A list goes on with an item. -/
  | item {kind : Kind} {ns : List Node} {n : Node} (h : Stage source kind .item ns)
      (hn : kind.mayHold n.kind) (ht : n.kind.isTypeOnly → kind = .typeSexpr) :
      Stage source kind .item (n :: ns)
  /-- A colon without a value asks for a type. -/
  | bareColon {kind : Kind} {ns : List Node} {n : Node} (h : Stage source kind .item ns)
      (hk : kind.holdsValues) (hn : n.isBareColon source) : Stage source kind .type (n :: ns)
  /-- The type comes. -/
  | bareType {kind : Kind} {ns : List Node} {n : Node} (h : Stage source kind .type ns)
      (hk : kind.holdsValues) (hn : n.kind.isType) : Stage source kind .item (n :: ns)
  /-- The type does not come. -/
  | noType {kind : Kind} {ns : List Node} (h : Stage source kind .type ns) (hk : kind.holdsValues) :
      Stage source kind .item ns
  /-- What stands in front of a sign comes first. -/
  | first {kind : Kind} {x y : Expectation} {n : Node} (hx : x.afterSign? = some y)
      (hn : kind.isFirst n) : Stage source kind x [n]
  /-- The sign comes next. -/
  | sign {kind : Kind} {x y : Expectation} {ns : List Node} {n : Node} (h : Stage source kind x ns)
      (hx : x.afterSign? = some y) (hn : kind.isSign source n) : Stage source kind y (n :: ns)

/-- The children with which an open node can be closed, the newest first. -/
inductive Whole (source : String) : Kind → List Node → Prop where
  /-- A list can be closed at any time. -/
  | unclosed {kind : Kind} {ns : List Node} (h : Stage source kind .item ns) (hk : kind.isList) :
      Whole source kind ns
  /-- A list is closed with its closer. -/
  | closed {kind : Kind} {ns : List Node} {n : Node} (h : Stage source kind .item ns)
      (hk : kind.isList) (hn : kind.ender? = some n.kind) : Whole source kind (n :: ns)
  /-- Nothing comes behind the sign. -/
  | lacking {kind : Kind} {x y : Expectation} {ns : List Node} {n : Node}
      (h : Stage source kind x ns) (hx : x.afterSign? = some y) (hn : kind.isSign source n) :
      Whole source kind (n :: ns)
  /-- What has to stand behind the sign comes last. -/
  | joined {kind : Kind} {x y : Expectation} {ns : List Node} {n : Node}
      (h : Stage source kind y ns) (hx : x.afterSign? = some y) (hn : kind.isLast n) :
      Whole source kind (n :: ns)

/-- One comment more. -/
theorem AllComments.snoc {ns : List Node} {n : Node} (h : AllComments ns)
    (hn : n.kind = .lineComment) : AllComments (ns ++ [n]) := by
  simpa [AllComments, or_imp, forall_and, hn] using h

/-- A colon without a value is an error. -/
theorem kind_of_isBareColon {source : String} {n : Node} (h : n.isBareColon source) :
    n.kind = .error := by
  simp only [isBareColon, Bool.and_eq_true, decide_eq_true_eq] at h
  exact h.1

/-- Types, errors and comments can stand in all lists and in the program. -/
theorem Kind.mayHold_of_isType {list kind : Kind} (hl : list.holdsValues ∨ list = .typeSexpr)
    (hk : kind.isType ∨ kind = .error ∨ kind = .lineComment) : list.mayHold kind := by
  have hlist : list = .program ∨ list = .sexpr ∨ list = .variants ∨ list = .typeSexpr := by
    cases list <;> simp_all [holdsValues]
  simp only [isType, Bool.or_eq_true, decide_eq_true_eq] at hk
  rcases hk with (hk | rfl) | rfl | rfl
  · rcases hlist with rfl | rfl | rfl | rfl <;> simp [mayHold, isType, hk]
  · rcases hlist with rfl | rfl | rfl | rfl <;> rfl
  · rcases hlist with rfl | rfl | rfl | rfl <;> rfl
  · rcases hlist with rfl | rfl | rfl | rfl <;> rfl

/-- Values, expressions with their types and semicolons can stand in all lists of values and in the
program. -/
theorem Kind.mayHold_of_isValue {list kind : Kind} (hl : list.holdsValues)
    (hk : kind.isValue ∨ kind = .typedExpr ∨ kind = .semicolon) : list.mayHold kind := by
  have hlist : list = .program ∨ list = .sexpr ∨ list = .variants := by
    cases list <;> simp_all [holdsValues]
  rcases hk with hk | rfl | rfl
  · rcases hlist with rfl | rfl | rfl <;> simp [mayHold, hk]
  · rcases hlist with rfl | rfl | rfl <;> rfl
  · rcases hlist with rfl | rfl | rfl <;> rfl

/-- A bracket is no type and no slash. -/
theorem Kind.class_of_bracket {list leaf : Kind} (hl : list.isList)
    (h : list.opener? = some leaf ∨ list.ender? = some leaf) :
    leaf.isTypeOnly = false ∧ leaf ≠ .slash := by
  cases list <;> simp_all [isList, opener?, ender?] <;> rcases h with rfl | rfl <;>
    simp [isTypeOnly]

/-- The opener of a list, or nothing at the beginning of the program, and then items. -/
def Begun (kind : Kind) (ns : List Node) : Prop :=
  ∃ opener items, ns = opener ++ items ∧ (∀ n ∈ items, kind.mayHold n.kind) ∧
    (kind = .program ∧ opener = [] ∨ kind.isList ∧ ∃ n, opener = [n] ∧ kind.opener? = some n.kind)

/-- One item more. -/
theorem Begun.snoc {kind : Kind} {ns : List Node} {n : Node} (h : Begun kind ns)
    (hn : kind.mayHold n.kind) : Begun kind (ns ++ [n]) := by
  obtain ⟨opener, items, rfl, hitems, hopener⟩ := h
  refine ⟨opener, items ++ [n], by rw [List.append_assoc], ?_, hopener⟩
  simpa [or_imp, forall_and, hn] using hitems

/-- One child more, which is no type or stands where one may. -/
theorem TypesInPlace.snoc {source : String} {kind : Kind} {ns : List Node} {m : Node}
    (h : TypesInPlace source kind ns) (hk : kind ≠ .typedExpr)
    (hm : m.kind.isTypeOnly → IsTypePlace source kind ns []) :
    TypesInPlace source kind (ns ++ [m]) := by
  intro before n after heq hn
  rcases List.eq_nil_or_concat after with rfl | ⟨after, last, rfl⟩
  · obtain ⟨rfl, hlast⟩ := List.append_inj' heq rfl
    obtain rfl := (List.cons.inj hlast).1
    exact hm hn
  · rw [List.concat_eq_append, ← List.cons_append, ← List.append_assoc] at heq
    obtain ⟨rfl, -⟩ := List.append_inj' heq rfl
    -- the end of the children counts for typed expressions only
    rcases h before n after rfl hn with h | h
    · exact absurd h.1 hk
    · exact .inr h

namespace Stage

variable {source : String} {kind : Kind} {x y : Expectation} {ns : List Node}

/-! ### Nodes that a sign joins -/

/-- In front of the sign stand the first node and comments. -/
theorem of_first (h : Stage source kind x ns) (hx : x.afterSign? = some y) :
    ∃ first comments, kind.isFirst first ∧ AllComments comments ∧
      ns.reverse = first :: comments := by
  induction h with
  | @comment kind x ns n _ hn ih =>
      obtain ⟨first, comments, hfirst, hcomments, heq⟩ := ih hx
      exact ⟨first, comments ++ [n], hfirst, hcomments.snoc hn, by rw [List.reverse_cons, heq]; rfl⟩
  | @first kind x _ n _ hn => exact ⟨n, [], hn, by simp [AllComments], rfl⟩
  | sign _ hx' _ _ =>
      rw [(Expectation.afterSign?_of_afterSign? hx').1] at hx
      cases hx
  | root => cases hx
  | opener => cases hx
  | item => cases hx
  | bareColon => cases hx
  | bareType => cases hx
  | noType => cases hx

/-- Behind the sign stand comments. -/
theorem of_sign (h : Stage source kind y ns) (hx : x.afterSign? = some y)
    (hk : kind.holdsValues = false) :
    ∃ first comments sign comments', kind.isFirst first ∧ AllComments comments ∧
      kind.isSign source sign ∧ AllComments comments' ∧
      ns.reverse = first :: comments ++ sign :: comments' := by
  have hy := Expectation.afterSign?_of_afterSign? hx
  induction h with
  | @comment kind y ns n _ hn ih =>
      obtain ⟨first, comments, sign, comments', hfirst, hcomments, hsign, hcomments', heq⟩ :=
        ih hx hk hy
      refine ⟨first, comments, sign, comments' ++ [n], hfirst, hcomments, hsign,
        hcomments'.snoc hn, ?_⟩
      rw [List.reverse_cons, heq]
      simp
  | @sign kind _ _ ns n h hx' hn _ =>
      obtain ⟨first, comments, hfirst, hcomments, heq⟩ := h.of_first hx'
      refine ⟨first, comments, n, [], hfirst, hcomments, hn, by simp [AllComments], ?_⟩
      rw [List.reverse_cons, heq]
  | first hx' _ =>
      rw [hy.1] at hx'
      cases hx'
  | bareColon _ hk' _ _ =>
      rw [hk] at hk'
      cases hk'
  | root => exact absurd rfl hy.2
  | opener => exact absurd rfl hy.2
  | item => exact absurd rfl hy.2
  | bareType => exact absurd rfl hy.2
  | noType => exact absurd rfl hy.2

/-! ### Lists -/

/-- The program and the lists are not joined by a sign. -/
theorem not_isSign {n : Node} (hk : kind.holdsValues ∨ kind = .typeSexpr) :
    kind.isFirst n = false ∧ kind.isSign source n = false := by
  cases kind <;> simp_all [Kind.holdsValues, Kind.isFirst, Kind.isSign]

/-- Behind the opener of a list, or from the beginning of the program, stand items. -/
theorem begun (h : Stage source kind x ns) (hk : kind.holdsValues ∨ kind = .typeSexpr) :
    Begun kind ns.reverse := by
  induction h with
  | root => exact ⟨[], [], rfl, by simp, .inl ⟨rfl, rfl⟩⟩
  | @opener kind n hl hn => exact ⟨[n], [], rfl, by simp, .inr ⟨hl, n, rfl, hn⟩⟩
  | comment _ hn ih =>
      rw [List.reverse_cons]
      exact (ih hk).snoc (Kind.mayHold_of_isType hk (.inr (.inr hn)))
  | item _ hn _ ih =>
      rw [List.reverse_cons]
      exact (ih hk).snoc hn
  | bareColon _ _ hn ih =>
      rw [List.reverse_cons]
      exact (ih hk).snoc (Kind.mayHold_of_isType hk (.inr (.inl (kind_of_isBareColon hn))))
  | bareType _ _ hn ih =>
      rw [List.reverse_cons]
      exact (ih hk).snoc (Kind.mayHold_of_isType hk (.inl hn))
  | noType _ _ ih => exact ih hk
  | @first kind _ _ n _ hn =>
      rw [(@not_isSign source kind n hk).1] at hn
      cases hn
  | @sign kind _ _ _ n _ _ hn _ =>
      rw [(@not_isSign source kind n hk).2] at hn
      cases hn

/-- Where a type is asked for in the program or in a list of values, a colon has come. -/
theorem of_bareColon (h : Stage source kind .type ns) (hk : kind.holdsValues) :
    IsTypePlace source kind ns.reverse [] := by
  refine .inr (.inr ⟨hk, ?_⟩)
  generalize hx : Expectation.type = x at h
  induction h with
  | @comment kind x ns n _ hn ih =>
      obtain ⟨front, colon, comments, heq, hcolon, hcomments⟩ := ih hk hx
      refine ⟨front, colon, comments ++ [n], ?_, hcolon, hcomments.snoc hn⟩
      rw [List.reverse_cons, heq]
      simp
  | @bareColon kind ns n _ _ hn _ =>
      exact ⟨ns.reverse, n, [], by rw [List.reverse_cons], hn, by simp [AllComments]⟩
  | @sign kind _ _ _ n _ _ hn _ =>
      rw [(@not_isSign source kind n (.inl hk)).2] at hn
      cases hn
  | @first kind _ _ n _ hn =>
      rw [(@not_isSign source kind n (.inl hk)).1] at hn
      cases hn
  | root => cases hx
  | opener => cases hx
  | item => cases hx
  | bareType => cases hx
  | noType => cases hx

/-- In the program and in lists of values, types come behind a colon only. -/
theorem typesInPlace (h : Stage source kind x ns) (hk : kind.holdsValues) :
    TypesInPlace source kind ns.reverse := by
  induction h with
  | root => simp [TypesInPlace]
  | @opener kind n hl hn =>
      have hnil : TypesInPlace source kind [] := by simp [TypesInPlace]
      refine hnil.snoc (by rintro rfl; cases hk) fun ht => ?_
      rw [(Kind.class_of_bracket hl (.inl hn)).1] at ht
      cases ht
  | comment _ hn ih =>
      rw [List.reverse_cons]
      refine (ih hk).snoc (by rintro rfl; cases hk) fun ht => ?_
      rw [hn] at ht
      cases ht
  | item _ hn htype ih =>
      rw [List.reverse_cons]
      refine (ih hk).snoc (by rintro rfl; cases hk) fun ht => ?_
      rw [htype ht] at hk
      cases hk
  | bareColon _ _ hn ih =>
      rw [List.reverse_cons]
      refine (ih hk).snoc (by rintro rfl; cases hk) fun ht => ?_
      rw [kind_of_isBareColon hn] at ht
      cases ht
  | bareType h _ _ ih =>
      rw [List.reverse_cons]
      exact (ih hk).snoc (by rintro rfl; cases hk) fun _ => h.of_bareColon hk
  | noType _ _ ih => exact ih hk
  | @first kind _ _ n _ hn =>
      rw [(@not_isSign source kind n (.inl hk)).1] at hn
      cases hn
  | @sign kind _ _ _ n _ _ hn _ =>
      rw [(@not_isSign source kind n (.inl hk)).2] at hn
      cases hn

end Stage

/-! ## Shapes of closed nodes -/

variable {source : String} {kind : Kind} {ns : List Node}

/-- A value is no type and no slash. -/
theorem Kind.class_of_isValue (h : kind.isValue) : kind.isTypeOnly = false ∧ kind ≠ .slash := by
  cases kind <;> simp_all [isValue, isTypeOnly]

/-- What stands in front of a sign is no type and no slash. -/
theorem class_of_isFirst {n : Node} (h : kind.isFirst n) :
    n.kind.isTypeOnly = false ∧ n.kind ≠ .slash := by
  unfold Kind.isFirst at h
  split at h
  · exact Kind.class_of_isValue h
  · simp_all [Kind.isTypeOnly]
  · cases h

/-- A sign that joins nodes is no type and no slash. -/
theorem class_of_isSign {n : Node} (h : kind.isSign source n) :
    n.kind.isTypeOnly = false ∧ n.kind ≠ .slash := by
  unfold Kind.isSign at h
  split at h
  · simp_all [Kind.isTypeOnly]
  · simp_all [Kind.isTypeOnly]
  · cases h

/-- What stands behind a sign is no slash, and a type in an expression only. -/
theorem class_of_isLast {n : Node} (h : kind.isLast n) :
    (n.kind.isTypeOnly → kind = .typedExpr) ∧ n.kind ≠ .slash := by
  unfold Kind.isLast at h
  split at h
  · refine ⟨fun _ => rfl, ?_⟩
    intro hslash
    rw [hslash] at h
    cases h
  · simp_all [Kind.isTypeOnly]
  · cases h

/-- Of the nodes that a sign joins, all but the last one are no types and no slashes. -/
theorem Joined.split (h : Joined source kind ns) :
    ∃ front last, ns = front ++ [last] ∧
      (∀ n ∈ front, n.kind.isTypeOnly = false ∧ n.kind ≠ .slash) ∧
      (last.kind.isTypeOnly → kind = .typedExpr) ∧ last.kind ≠ .slash := by
  obtain ⟨first, comments, sign, hfirst, hcomments, hsign, hns⟩ := h
  have hfront : ∀ n ∈ first :: comments, n.kind.isTypeOnly = false ∧ n.kind ≠ .slash := by
    intro n hn
    rcases List.mem_cons.mp hn with rfl | hn
    · exact class_of_isFirst hfirst
    · simp [hcomments n hn, Kind.isTypeOnly]
  rcases hns with rfl | ⟨comments', last, hcomments', hlast, rfl⟩
  · refine ⟨first :: comments, sign, rfl, hfront, ?_, (class_of_isSign hsign).2⟩
    simp [(class_of_isSign hsign).1]
  · refine ⟨_, last, rfl, ?_, class_of_isLast hlast⟩
    intro n hn
    rcases List.mem_append.mp hn with hn | hn
    · exact hfront n hn
    · rcases List.mem_cons.mp hn with rfl | hn
      · exact class_of_isSign hsign
      · simp [hcomments' n hn, Kind.isTypeOnly]

/-- Types are joined to expressions, and stand last there. -/
theorem Joined.typesInPlace (h : Joined source kind ns) : TypesInPlace source kind ns := by
  obtain ⟨front, last, rfl, hfront, hlast, -⟩ := h.split
  intro before n after heq hn
  rcases List.eq_nil_or_concat after with rfl | ⟨after, m, rfl⟩
  · obtain ⟨-, hlast'⟩ := List.append_inj' heq rfl
    obtain rfl := (List.cons.inj hlast').1
    exact .inl ⟨hlast hn, rfl⟩
  · rw [List.concat_eq_append, ← List.cons_append, ← List.append_assoc] at heq
    obtain ⟨rfl, -⟩ := List.append_inj' heq rfl
    rw [(hfront n (by simp)).1] at hn
    cases hn

/-- Slashes are items of variants only. -/
theorem Kind.eq_variants_of_mayHold (h : kind.mayHold .slash) : kind = .variants := by
  cases kind <;> simp_all [mayHold, isValue, isTypeOnly, isType]

/-- A list holds slashes if it is one of variants. -/
theorem Bracketed.slashes (h : Bracketed kind ns) (hk : kind.isList) :
    ∀ c ∈ ns, c.kind = .slash → kind = .variants := by
  obtain ⟨first, items, hfirst, hitems, hns⟩ := h
  have hlist : ∀ c ∈ first :: items, c.kind = .slash → kind = .variants := by
    intro c hc hslash
    rcases List.mem_cons.mp hc with rfl | hc
    · exact absurd hslash (Kind.class_of_bracket hk (.inl hfirst)).2
    · exact Kind.eq_variants_of_mayHold (hslash ▸ hitems c hc)
  rcases hns with rfl | ⟨last, hlast, rfl⟩
  · exact hlist
  · intro c hc hslash
    rcases List.mem_append.mp hc with hc | hc
    · exact hlist c hc hslash
    · rw [List.mem_singleton.mp hc] at hslash
      exact absurd hslash (Kind.class_of_bracket hk (.inr hlast)).2

/-- A list with its items, and types in their places, is shaped. -/
theorem Bracketed.shaped {n : Node} (h : Bracketed n.kind n.children) (hk : n.kind.isList)
    (ht : n.kind.holdsValues → TypesInPlace source n.kind n.children) : n.Shaped source := by
  refine ⟨?_, h.slashes hk, ?_⟩
  · cases hkind : n.kind <;> rw [hkind] at h hk <;> first | exact h | cases hk
  · cases hkind : n.kind <;> rw [hkind] at ht hk <;>
      first | exact ht rfl | exact fun _ _ _ _ _ => .inr (.inl rfl) | cases hk

/-- Nodes that a sign joins are shaped. -/
theorem Joined.shaped {n : Node} (h : Joined source n.kind n.children) : n.Shaped source := by
  obtain ⟨front, last, hns, hfront, -, hlast⟩ := h.split
  refine ⟨?_, ?_, h.typesInPlace⟩
  · have ⟨first, _, _, hfirst, _⟩ := h
    unfold Kind.isFirst at hfirst
    split at hfirst
    · rename_i hkind
      rwa [hkind] at h ⊢
    · rename_i hkind
      rwa [hkind] at h ⊢
    · cases hfirst
  · intro c hc hslash
    rw [hns] at hc
    rcases List.mem_append.mp hc with hc | hc
    · exact absurd hslash (hfront c hc).2
    · rw [List.mem_singleton.mp hc] at hslash
      exact absurd hslash hlast

/-- A list that has begun can be closed, with its closer or without it. -/
theorem Begun.bracketed (h : Begun kind ns) (hk : kind.isList) :
    Bracketed kind ns ∧
      ∀ last : Node, kind.ender? = some last.kind → Bracketed kind (ns ++ [last]) := by
  obtain ⟨opener, items, rfl, hitems, hopener⟩ := h
  rcases hopener with ⟨rfl, -⟩ | ⟨-, first, rfl, hfirst⟩
  · cases hk
  · exact ⟨⟨first, items, hfirst, hitems, .inl rfl⟩,
      fun last hlast => ⟨first, items, hfirst, hitems, .inr ⟨last, hlast, rfl⟩⟩⟩

/-- Where something can stand behind a sign, values are not held. -/
theorem holdsValues_of_isLast {n : Node} (h : kind.isLast n) : kind.holdsValues = false := by
  unfold Kind.isLast at h
  split at h
  · rfl
  · rfl
  · cases h

/-- **A node that is closed is shaped.** -/
theorem Whole.shaped (h : Whole source kind ns) (id : Nat) (span : Span) :
    Shaped source ⟨id, kind, span, ns.reverse⟩ := by
  have hlist : kind.isList → kind.holdsValues ∨ kind = .typeSexpr := by
    cases kind <;> simp [Kind.isList, Kind.holdsValues]
  cases h with
  | unclosed h hk => exact ((h.begun (hlist hk)).bracketed hk).1.shaped hk h.typesInPlace
  | @closed ns last h hk hlast =>
      rw [List.reverse_cons]
      refine (((h.begun (hlist hk)).bracketed hk).2 last hlast).shaped hk fun hv => ?_
      refine (h.typesInPlace hv).snoc (by rintro rfl; cases hv) fun ht => ?_
      rw [(Kind.class_of_bracket hk (.inr hlast)).1] at ht
      cases ht
  | @lacking _ _ ns sign h hx hsign =>
      obtain ⟨first, comments, hfirst, hcomments, heq⟩ := h.of_first hx
      refine Joined.shaped ⟨first, comments, sign, hfirst, hcomments, hsign, .inl ?_⟩
      rw [List.reverse_cons, heq]
  | @joined _ _ ns last h hx hlast =>
      obtain ⟨first, comments, sign, comments', hfirst, hcomments, hsign, hcomments', heq⟩ :=
        h.of_sign hx (holdsValues_of_isLast hlast)
      refine Joined.shaped ⟨first, comments, sign, hfirst, hcomments, hsign,
        .inr ⟨comments', last, hcomments', hlast, ?_⟩⟩
      rw [List.reverse_cons, heq]

/-- The program is shaped at any time. -/
theorem Stage.shaped {x : Expectation} (h : Stage source .program x ns) (id : Nat) (span : Span) :
    Shaped source ⟨id, .program, span, ns.reverse⟩ := by
  obtain ⟨opener, items, heq, hitems, hopener⟩ := h.begun (.inl rfl)
  have hmem : ∀ n ∈ ns.reverse, Kind.program.mayHold n.kind := by
    rcases hopener with ⟨-, rfl⟩ | ⟨hl, -⟩
    · rwa [heq]
    · cases hl
  exact ⟨hmem, fun n hn hslash => Kind.eq_variants_of_mayHold (hslash ▸ hmem n hn),
    h.typesInPlace rfl⟩

end Node

end GolfAssist
