import GolfAssist.Proofs.Grammar
import GolfAssist.Proofs.Reader.Rules

/-!
# What open nodes demand of the lexemes that follow

* `Level` — an open node without its place: what sort it is and which parts it has.
* `Level.Closes` — the lexemes begin with the rest of the node, and what is around it takes the node
  that comes of it.
* `Grammar.Accepts` — the same for a whole stack of open nodes that gets one more phrase, up to the
  end of the lexemes, where the parts of the root have to be the given program.
* `Grammar.Demands` — the same for a stack and what a reader expects next.

All of them are said with the grammar alone. What a lexeme does to a demand is worked out here, one
equivalence for each way in which a lexeme can be used, and so are the lexemes that no demand can
begin with (`Level.not_closes`).
-/

namespace GolfAssist

/-- An open node without its place. -/
structure Level where
  /-- The sort of the node. -/
  kind : Node.Kind
  /-- Its parts so far. -/
  parts : List Phrase

namespace Level

/-- The level with more parts. -/
def append (f : Level) (ps : List Phrase) : Level := { f with parts := f.parts ++ ps }

/-- The level with one more part. -/
def push (f : Level) (p : Phrase) : Level := f.append [p]

/-- The phrase that the level becomes when its node is closed. -/
def phrase (f : Level) : Phrase := .node f.kind f.parts

/-- No more parts do not change a level. -/
theorem append_nil (f : Level) : f.append [] = f := by
  unfold append
  rw [List.append_nil]

/-- Parts can be added one after the other. -/
theorem append_push (f : Level) (p : Phrase) (ps : List Phrase) :
    (f.push p).append ps = f.append (p :: ps) := by
  unfold push append
  rw [List.append_assoc, List.singleton_append]

end Level

namespace Node.Kind

/-- A part of a node of the kind can begin with the token. -/
def begins (region : Node.Kind) (kind : Token.Kind) : Bool :=
  match kind with
  | .variable | .string | .op | .openBrace | .semicolon => region.holdsValues
  | .integer | .word | .openParen => region.holdsValues || region = .typeSexpr
  | .slash => region = .variants
  | _ => false

/-- The token ends a node of the kind. -/
def endsWith (region : Node.Kind) (kind : Token.Kind) : Bool :=
  match kind with
  | .closeParen => region = .sexpr || region = .typeSexpr
  | .closeBrace => region = .variants
  | _ => false

end Node.Kind

namespace Grammar

/-! ## Demands -/

/-- The lexemes begin with one of the given sort, and its text and what is left are as asked. -/
def Next (kind : Token.Kind) (P : String → List Lexeme → Prop) (k : List Lexeme) : Prop :=
  ∃ text k', k = ⟨kind, text⟩ :: k' ∧ P text k'

/-- An atom is complete. The expression it is, with its type if a colon follows, is accepted. -/
def AtomThen (accept : Phrase → List Lexeme → Prop) (atom : Phrase) (k : List Lexeme) : Prop :=
  accept atom k ∨ Next .colon (fun colon k₁ => ∃ type k₂, TypeAt k₁ type k₂ ∧
    accept (.node .typedExpr [atom, .leaf .colon colon, type]) k₂) k

/-- The lexemes begin with a part of a node of the kind. -/
def PartAt (region : Node.Kind) (k : List Lexeme) (p : Phrase) (k' : List Lexeme) : Prop :=
  if region = .typeSexpr then TypeAt k p k'
  else ExprAt k p k' ∨ (∃ text, k = ⟨.semicolon, text⟩ :: k' ∧ p = .leaf .semicolon text) ∨
    region = .variants ∧ ∃ text, k = ⟨.slash, text⟩ :: k' ∧ p = .leaf .slash text

/-- The lexemes begin with any number of parts of a node of the kind. -/
def BodyAt (region : Node.Kind) : List Lexeme → List Phrase → List Lexeme → Prop :=
  if region = .typeSexpr then TypesAt else ItemsAt (region = .variants)

end Grammar

open Grammar

namespace Level

/-- The node ends here: with the source if it is the root, which then has the parts `forest`, and
else with its closer. -/
def Ends (forest : List Phrase) (accept : Phrase → List Lexeme → Prop) (f : Level)
    (k : List Lexeme) : Prop :=
  match f.kind with
  | .program => k = [] ∧ forest = f.parts
  | .sexpr =>
    Next .closeParen (fun text => AtomThen accept (f.push (.leaf .closeParen text)).phrase) k
  | .variants =>
    Next .closeBrace (fun text => AtomThen accept (f.push (.leaf .closeBrace text)).phrase) k
  | .typeSexpr => Next .closeParen (fun text => accept (f.push (.leaf .closeParen text)).phrase) k
  | _ => False

/-- The lexemes begin with the parts that the node still gets, and then it ends. -/
def Closes (forest : List Phrase) (accept : Phrase → List Lexeme → Prop) (f : Level)
    (k : List Lexeme) : Prop :=
  ∃ ps k', BodyAt f.kind k ps k' ∧ (f.append ps).Ends forest accept k'

end Level

namespace Grammar

/-- The innermost of the open nodes gets one more part, and then all of them get what they still
need. An expression that gets its type is complete with it. -/
def Accepts (forest : List Phrase) : List Level → Phrase → List Lexeme → Prop
  | [], _, _ => False
  | f :: fs, p, k =>
    if f.kind = .typedExpr then Accepts forest fs (f.push p).phrase k
    else (f.push p).Closes forest (Accepts forest fs) k

/-- The lexemes begin with a type, and the open nodes accept it. -/
def TakesType (forest : List Phrase) (fs : List Level) (k : List Lexeme) : Prop :=
  ∃ type k', TypeAt k type k' ∧ Accepts forest fs type k'

/-- What the open nodes need when the given thing is expected next. -/
def Demands (forest : List Phrase) : Expectation → List Level → List Lexeme → Prop
  | _, [], _ => False
  | .item, f :: fs, k => f.Closes forest (Accepts forest fs) k
  | .colon, f :: fs, k =>
    Next .colon (fun text => TakesType forest (f.push (.leaf .colon text) :: fs)) k
  | .type, f :: fs, k => TakesType forest (f :: fs) k
  | .dots, f :: fs, k => ∃ k', k = .dots :: k' ∧ Next .integer (fun text =>
      Accepts forest fs ((f.push (.leaf .opalias "..")).push (.leaf .integer text)).phrase) k'
  | .bound, f :: fs, k =>
    Next .integer (fun text => Accepts forest fs (f.push (.leaf .integer text)).phrase) k

variable {forest : List Phrase} {accept : Phrase → List Lexeme → Prop} {f : Level}
  {fs : List Level} {l : Lexeme} {k k' : List Lexeme} {ps : List Phrase}

/-! ## The next lexeme -/

/-- A lexeme of the given sort is taken off. -/
theorem next_cons_iff {kind : Token.Kind} {P : String → List Lexeme → Prop} {text : String} :
    Next kind P (⟨kind, text⟩ :: k) ↔ P text k := by
  constructor
  · rintro ⟨_, _, heq, h⟩
    cases heq
    exact h
  · intro h
    exact ⟨text, k, rfl, h⟩

/-- No lexeme of another sort is. -/
theorem Next.kind_eq {kind : Token.Kind} {P : String → List Lexeme → Prop}
    (h : Next kind P (l :: k)) : l.kind = kind := by
  obtain ⟨text, k', heq, -⟩ := h
  rw [(List.cons.inj heq).1]

/-- There is none where nothing is left. -/
theorem not_next_nil {kind : Token.Kind} {P : String → List Lexeme → Prop} : ¬ Next kind P [] := by
  rintro ⟨text, k', heq, -⟩
  simp at heq

/-! ## Parts -/

/-- Any number of parts is none, or one and then more. -/
theorem bodyAt_iff {region : Node.Kind} :
    BodyAt region k ps k' ↔ ps = [] ∧ k' = k ∨
      ∃ p qs k₁, ps = p :: qs ∧ PartAt region k p k₁ ∧ BodyAt region k₁ qs k' := by
  unfold BodyAt PartAt
  by_cases hreg : region = .typeSexpr
  · rw [if_pos hreg]
    simp only [if_pos hreg]
    exact typesAt_iff
  · rw [if_neg hreg]
    simp only [if_neg hreg]
    rw [itemsAt_iff]
    constructor
    · rintro (h | ⟨p, qs, k₁, rfl, h, hs⟩ | ⟨text, qs, k₁, rfl, rfl, hs⟩ |
        ⟨hslash, text, qs, k₁, rfl, rfl, hs⟩)
      · exact .inl h
      · exact .inr ⟨p, qs, k₁, rfl, .inl h, hs⟩
      · exact .inr ⟨_, qs, k₁, rfl, .inr (.inl ⟨text, rfl, rfl⟩), hs⟩
      · exact .inr ⟨_, qs, k₁, rfl, .inr (.inr ⟨of_decide_eq_true hslash, text, rfl, rfl⟩), hs⟩
    · rintro (h | ⟨p, qs, k₁, rfl, h | ⟨text, rfl, rfl⟩ | ⟨hslash, text, rfl, rfl⟩, hs⟩)
      · exact .inl h
      · exact .inr (.inl ⟨p, qs, k₁, rfl, h, hs⟩)
      · exact .inr (.inr (.inl ⟨text, qs, k₁, rfl, rfl, hs⟩))
      · exact .inr (.inr (.inr ⟨decide_eq_true hslash, text, qs, k₁, rfl, rfl, hs⟩))

/-- Among types, a part is a type. -/
theorem partAt_typeSexpr_iff {p : Phrase} : PartAt .typeSexpr k p k' ↔ TypeAt k p k' := by
  unfold PartAt
  rw [if_pos rfl]

/-- Where values stand, a part is an expression or what divides expressions. -/
theorem partAt_iff_of_holdsValues {p : Phrase} {region : Node.Kind} (hr : region.holdsValues) :
    PartAt region k p k' ↔
      ExprAt k p k' ∨ (∃ text, k = ⟨.semicolon, text⟩ :: k' ∧ p = .leaf .semicolon text) ∨
        region = .variants ∧ ∃ text, k = ⟨.slash, text⟩ :: k' ∧ p = .leaf .slash text := by
  unfold PartAt
  rw [if_neg]
  rintro rfl
  cases hr

/-- An expression begins with a lexeme that is a value or that opens one. -/
theorem ExprAt.isAtom_or_opens {p : Phrase} (h : ExprAt (l :: k) p k') :
    l.kind.isAtom ∧ l.kind ≠ .unknown ∨ ∃ kind, l.kind.opens? = some kind := by
  have hatom : ∀ {a k₁}, AtomAt (l :: k) a k₁ →
      l.kind.isAtom ∧ l.kind ≠ .unknown ∨ ∃ kind, l.kind.opens? = some kind := by
    intro a k₁ ha
    cases ha with
    | token ha =>
        unfold Lexeme.atomKind? at ha
        split at ha <;> simp_all [Token.Kind.isAtom]
    | list _ => exact .inr ⟨_, rfl⟩
    | variants _ => exact .inr ⟨_, rfl⟩
  rcases exprAt_iff.mp h with h | ⟨a, colon, k₁, type, h, -, -⟩
  · exact hatom h
  · exact hatom h

/-- A part begins with one of the lexemes that it can begin with. -/
theorem PartAt.begins {p : Phrase} {region : Node.Kind} (h : PartAt region (l :: k) p k')
    (hr : region.holdsValues ∨ region = .typeSexpr) : region.begins l.kind := by
  rcases hr with hr | rfl
  · rcases (partAt_iff_of_holdsValues hr).mp h with h | ⟨text, h, -⟩ | ⟨rfl, text, h, -⟩
    · rcases h.isAtom_or_opens with hl | ⟨kind, hl⟩
      · cases hk : l.kind <;> simp_all [Node.Kind.begins, Token.Kind.isAtom]
      · cases hk : l.kind <;> simp_all [Node.Kind.begins, Token.Kind.opens?]
    · cases h
      exact hr
    · cases h
      rfl
  · have hs := (partAt_typeSexpr_iff.mp h).startsType
    cases hk : l.kind <;> simp_all [Node.Kind.begins, Token.Kind.startsType]

/-- There is no part in nothing. -/
theorem not_partAt_nil {p : Phrase} {region : Node.Kind} : ¬ PartAt region [] p k' := by
  unfold PartAt
  split
  · exact not_typeAt_nil
  · rintro (h | ⟨text, h, -⟩ | ⟨-, text, h, -⟩)
    · exact not_exprAt_nil h
    · cases h
    · cases h

end Grammar

namespace Level

variable {forest : List Phrase} {accept : Phrase → List Lexeme → Prop} {f : Level}
  {fs : List Level} {l : Lexeme} {k : List Lexeme}

/-- A node ends here, or gets one more part. -/
theorem closes_iff :
    f.Closes forest accept k ↔ f.Ends forest accept k ∨
      ∃ p k₁, PartAt f.kind k p k₁ ∧ (f.push p).Closes forest accept k₁ := by
  constructor
  · rintro ⟨ps, k', hbody, hends⟩
    rcases bodyAt_iff.mp hbody with ⟨rfl, rfl⟩ | ⟨p, qs, k₁, rfl, hpart, hbody⟩
    · rw [append_nil] at hends
      exact .inl hends
    · rw [← append_push] at hends
      exact .inr ⟨p, k₁, hpart, qs, k', hbody, hends⟩
  · rintro (hends | ⟨p, k₁, hpart, qs, k', hbody, hends⟩)
    · refine ⟨[], k, bodyAt_iff.mpr (.inl ⟨rfl, rfl⟩), ?_⟩
      rwa [append_nil]
    · rw [append_push] at hends
      exact ⟨p :: qs, k', bodyAt_iff.mpr (.inr ⟨p, qs, k₁, rfl, hpart, hbody⟩), hends⟩

/-- A node ends with its closer. -/
theorem Ends.endsWith (h : f.Ends forest accept (l :: k)) : f.kind.endsWith l.kind := by
  unfold Ends at h
  split at h
  · simp at h
  · rename_i hk
    rw [h.kind_eq, hk]
    rfl
  · rename_i hk
    rw [h.kind_eq, hk]
    rfl
  · rename_i hk
    rw [h.kind_eq, hk]
    rfl
  · exact h.elim

/-- Where nothing is left, only the root ends. -/
theorem ends_nil_iff : f.Ends forest accept [] ↔ f.kind = .program ∧ forest = f.parts := by
  unfold Ends
  split <;> simp_all [not_next_nil]

/-- Where nothing is left, the node ends. -/
theorem closes_nil_iff : f.Closes forest accept [] ↔ f.Ends forest accept [] := by
  rw [closes_iff]
  constructor
  · rintro (hends | ⟨p, k₁, hpart, -⟩)
    · exact hends
    · exact absurd hpart not_partAt_nil
  · exact .inl

/-- Where no part begins, the node ends. -/
theorem closes_iff_ends (hf : f.kind.holdsValues ∨ f.kind = .typeSexpr)
    (hl : f.kind.begins l.kind = false) :
    f.Closes forest accept (l :: k) ↔ f.Ends forest accept (l :: k) := by
  rw [closes_iff]
  constructor
  · rintro (hends | ⟨p, k₁, hpart, -⟩)
    · exact hends
    · rw [hpart.begins hf] at hl
      cases hl
  · exact .inl

/-- Where the node does not end, it gets one more part. -/
theorem closes_iff_part (hl : f.kind.endsWith l.kind = false) :
    f.Closes forest accept (l :: k) ↔
      ∃ p k₁, PartAt f.kind (l :: k) p k₁ ∧ (f.push p).Closes forest accept k₁ := by
  rw [closes_iff]
  constructor
  · rintro (hends | hpart)
    · rw [hends.endsWith] at hl
      cases hl
    · exact hpart
  · exact .inr

/-- A lexeme that neither begins a part nor ends the node cannot come next. -/
theorem not_closes (hf : f.kind.holdsValues ∨ f.kind = .typeSexpr)
    (hl : f.kind.begins l.kind = false) (he : f.kind.endsWith l.kind = false) :
    ¬ f.Closes forest accept (l :: k) := by
  intro h
  have hends := ((closes_iff_ends hf hl).mp h).endsWith
  rw [he] at hends
  cases hends

end Level

namespace Grammar

variable {forest : List Phrase} {accept : Phrase → List Lexeme → Prop} {f : Level}
  {fs : List Level} {l : Lexeme} {k : List Lexeme} {p : Phrase} {t : Token}

/-! ## Values -/

/-- A node that is not an expression in wait of its type gets one more part. -/
theorem accepts_iff_closes (hf : f.kind ≠ .typedExpr) :
    Accepts forest (f :: fs) p k ↔ (f.push p).Closes forest (Accepts forest fs) k := by
  rw [Accepts, if_neg hf]

/-- An expression is complete with its type. -/
theorem accepts_typedExpr_iff (hf : f.kind = .typedExpr) :
    Accepts forest (f :: fs) p k ↔ Accepts forest fs (f.push p).phrase k := by
  rw [Accepts, if_pos hf]

/-- Nodes that hold values are not in wait of a type. -/
theorem ne_typedExpr_of_holdsValues {kind : Node.Kind} (h : kind.holdsValues) :
    kind ≠ .typedExpr := by
  rintro rfl
  cases h

/-- What divides expressions is one more part. -/
theorem closes_divider_iff (ht : f.kind.isDividedBy t.kind) :
    f.Closes forest accept (t.lexeme :: k) ↔
      (f.push (.leaf t.leafKind t.text)).Closes forest accept k := by
  obtain ⟨kind, start, text⟩ := t
  have hk : f.kind.holdsValues ∧ kind = .semicolon ∨ f.kind = .variants ∧ kind = .slash := by
    simpa [Node.Kind.isDividedBy] using ht
  have hf : f.kind.holdsValues := by
    rcases hk with hk | hk
    · exact hk.1
    · rw [hk.1]
      rfl
  have hends : f.kind.endsWith kind = false := by
    rcases hk with ⟨-, rfl⟩ | ⟨-, rfl⟩ <;> rfl
  have hpart : ∀ {p k₁}, PartAt f.kind (⟨kind, text⟩ :: k) p k₁ ↔
      p = .leaf (Token.leafKind ⟨kind, start, text⟩) text ∧ k₁ = k := by
    intro p k₁
    rw [partAt_iff_of_holdsValues hf]
    constructor
    · rintro (h | ⟨text', h, rfl⟩ | ⟨-, text', h, rfl⟩)
      · rcases h.isAtom_or_opens with hl | ⟨_, hl⟩ <;>
          rcases hk with ⟨-, rfl⟩ | ⟨-, rfl⟩ <;> simp [Token.Kind.isAtom, Token.Kind.opens?] at hl
      · cases h
        exact ⟨rfl, rfl⟩
      · cases h
        exact ⟨rfl, rfl⟩
    · rintro ⟨rfl, rfl⟩
      rcases hk with ⟨-, rfl⟩ | ⟨hvariants, rfl⟩
      · exact .inr (.inl ⟨text, rfl, rfl⟩)
      · exact .inr (.inr ⟨hvariants, text, rfl, rfl⟩)
  rw [Token.lexeme, Level.closes_iff_part hends]
  constructor
  · rintro ⟨p, k₁, h, hcloses⟩
    obtain ⟨rfl, rfl⟩ := hpart.mp h
    exact hcloses
  · intro hcloses
    exact ⟨_, _, hpart.mpr ⟨rfl, rfl⟩, hcloses⟩

/-- A lexeme that begins an atom is the beginning of an expression. -/
theorem closes_atom_iff (hf : f.kind.holdsValues)
    (hl : l.kind.isAtom ∨ ∃ kind, l.kind.opens? = some kind) :
    f.Closes forest (Accepts forest fs) (l :: k) ↔
      ∃ a k₁, AtomAt (l :: k) a k₁ ∧ AtomThen (Accepts forest (f :: fs)) a k₁ := by
  have hne := ne_typedExpr_of_holdsValues hf
  have hends : f.kind.endsWith l.kind = false := by
    rcases hl with hl | ⟨kind, hl⟩
    · cases hk : l.kind <;> simp_all [Token.Kind.isAtom, Node.Kind.endsWith]
    · cases hk : l.kind <;> simp_all [Token.Kind.opens?, Node.Kind.endsWith]
  have hpart : ∀ {p k₁}, PartAt f.kind (l :: k) p k₁ ↔ ExprAt (l :: k) p k₁ := by
    intro p k₁
    rw [partAt_iff_of_holdsValues hf]
    constructor
    · rintro (h | ⟨text, h, -⟩ | ⟨-, text, h, -⟩)
      · exact h
      · cases h
        rcases hl with hl | ⟨kind, hl⟩ <;> cases hl
      · cases h
        rcases hl with hl | ⟨kind, hl⟩ <;> cases hl
    · exact .inl
  rw [Level.closes_iff_part hends]
  constructor
  · rintro ⟨p, k₁, h, hcloses⟩
    rw [← accepts_iff_closes hne] at hcloses
    rcases exprAt_iff.mp (hpart.mp h) with ha | ⟨a, colon, k₂, type, ha, htype, rfl⟩
    · exact ⟨p, k₁, ha, .inl hcloses⟩
    · exact ⟨a, _, ha, .inr ⟨colon, k₂, rfl, type, k₁, htype, hcloses⟩⟩
  · rintro ⟨a, k₁, h, hcloses | ⟨colon, k₂, rfl, type, k₃, htype, hcloses⟩⟩
    · rw [accepts_iff_closes hne] at hcloses
      exact ⟨a, k₁, hpart.mpr (.plain h), hcloses⟩
    · rw [accepts_iff_closes hne] at hcloses
      exact ⟨_, k₃, hpart.mpr (.typed h htype), hcloses⟩

/-- A value is an atom. -/
theorem closes_value_iff (hf : f.kind.holdsValues) (ht : t.kind.isAtom) (hu : t.kind ≠ .unknown) :
    f.Closes forest (Accepts forest fs) (t.lexeme :: k) ↔
      AtomThen (Accepts forest (f :: fs)) (.leaf t.leafKind t.text) k := by
  have hatom : t.lexeme.atomKind? = some t.leafKind := by
    unfold Lexeme.atomKind? Token.leafKind Token.lexeme
    cases hk : t.kind <;> simp_all [Token.Kind.isAtom]
  rw [closes_atom_iff hf (.inl ht)]
  constructor
  · rintro ⟨a, k₁, ha, h⟩
    obtain ⟨rfl, rfl⟩ := (atomAt_token_iff hatom).mp ha
    exact h
  · intro h
    exact ⟨_, k, .token hatom, h⟩

/-- What opens a value is the first part of a new level. -/
theorem closes_opener_iff (hf : f.kind.holdsValues) {kind : Node.Kind}
    (ht : t.kind.opens? = some kind) :
    f.Closes forest (Accepts forest fs) (t.lexeme :: k) ↔
      Demands forest .item (⟨kind, [.leaf t.leafKind t.text]⟩ :: f :: fs) k := by
  rw [closes_atom_iff hf (.inr ⟨kind, ht⟩)]
  obtain ⟨token, start, text⟩ := t
  have hk : token = .openParen ∧ kind = .sexpr ∨ token = .openBrace ∧ kind = .variants := by
    unfold Token.Kind.opens? at ht
    split at ht <;> simp_all
  rcases hk with ⟨rfl, rfl⟩ | ⟨rfl, rfl⟩
  · constructor
    · rintro ⟨a, k₁, ha, h⟩
      obtain ⟨items, closer, hitems, rfl⟩ := atomAt_openParen_iff.mp ha
      exact ⟨items, _, hitems, closer, k₁, rfl, h⟩
    · rintro ⟨items, k', hitems, closer, k₁, rfl, h⟩
      exact ⟨_, k₁, .list hitems, h⟩
  · constructor
    · rintro ⟨a, k₁, ha, h⟩
      obtain ⟨items, closer, hitems, rfl⟩ := atomAt_openBrace_iff.mp ha
      exact ⟨items, _, hitems, closer, k₁, rfl, h⟩
    · rintro ⟨items, k', hitems, closer, k₁, rfl, h⟩
      exact ⟨_, k₁, .variants hitems, h⟩

/-- A closer completes the node that it closes, which is an atom. -/
theorem closes_closer_iff (ht : f.kind.closer? = some t.kind) :
    f.Closes forest accept (t.lexeme :: k) ↔
      AtomThen accept (f.push (.leaf t.leafKind t.text)).phrase k := by
  obtain ⟨kind, start, text⟩ := t
  obtain ⟨region, parts⟩ := f
  have hk : region = .sexpr ∧ kind = .closeParen ∨ region = .variants ∧ kind = .closeBrace := by
    unfold Node.Kind.closer? at ht
    split at ht <;> simp_all
  rcases hk with ⟨rfl, rfl⟩ | ⟨rfl, rfl⟩
  · rw [Token.lexeme, Level.closes_iff_ends (.inl rfl) rfl]
    exact next_cons_iff
  · rw [Token.lexeme, Level.closes_iff_ends (.inl rfl) rfl]
    exact next_cons_iff

/-- Without a colon behind it, an atom is an expression. -/
theorem atomThen_iff_of_ne_colon (hk : ∀ l k', k = l :: k' → l.kind ≠ .colon) :
    AtomThen accept p k ↔ accept p k := by
  constructor
  · rintro (h | ⟨text, k', rfl, -⟩)
    · exact h
    · exact absurd rfl (hk _ k' rfl)
  · exact .inl

/-- With a colon behind it, an atom takes a type. -/
theorem atomThen_colon_iff (hf : f.kind.holdsValues) {colon : String} :
    AtomThen (Accepts forest (f :: fs)) p (⟨.colon, colon⟩ :: k) ↔
      TakesType forest (⟨.typedExpr, [p, .leaf .colon colon]⟩ :: f :: fs) k := by
  rw [AtomThen, next_cons_iff]
  constructor
  · rintro (h | ⟨type, k₂, htype, h⟩)
    · rw [accepts_iff_closes (ne_typedExpr_of_holdsValues hf)] at h
      exact absurd h (Level.not_closes (.inl hf) rfl rfl)
    · refine ⟨type, k₂, htype, ?_⟩
      rw [accepts_typedExpr_iff rfl]
      exact h
  · rintro ⟨type, k₂, htype, h⟩
    rw [accepts_typedExpr_iff rfl] at h
    exact .inr ⟨type, k₂, htype, h⟩

/-! ## Types -/

/-- A closer completes a list of types. -/
theorem closes_closeParen_iff (hf : f.kind = .typeSexpr) {closer : String} :
    f.Closes forest accept (⟨.closeParen, closer⟩ :: k) ↔
      accept (f.push (.leaf .closeParen closer)).phrase k := by
  obtain ⟨region, parts⟩ := f
  obtain rfl : region = .typeSexpr := hf
  rw [Level.closes_iff_ends (.inr rfl) rfl]
  exact next_cons_iff

/-- In a list of types, a lexeme that can begin a type is the beginning of one. -/
theorem closes_type_iff (hf : f.kind = .typeSexpr) (hl : l.kind.startsType) :
    f.Closes forest (Accepts forest fs) (l :: k) ↔ TakesType forest (f :: fs) (l :: k) := by
  have hends : f.kind.endsWith l.kind = false := by
    cases hk : l.kind <;> simp_all [Token.Kind.startsType, Node.Kind.endsWith]
  rw [Level.closes_iff_part hends, hf]
  simp only [partAt_typeSexpr_iff, TakesType, accepts_iff_closes (by rw [hf]; simp)]

/-- A type begins with a lexeme that can begin one. -/
theorem not_takesType (hl : l.kind.startsType = false) : ¬ TakesType forest fs (l :: k) := by
  rintro ⟨type, k', htype, -⟩
  rw [htype.startsType] at hl
  cases hl

/-- There is no type where nothing is left. -/
theorem not_takesType_nil : ¬ TakesType forest fs [] := by
  rintro ⟨type, k', htype, -⟩
  exact not_typeAt_nil htype

/-- A word is a type. -/
theorem takesType_word_iff {text : String} :
    TakesType forest fs (⟨.word, text⟩ :: k) ↔ Accepts forest fs (.leaf .typeName text) k := by
  constructor
  · rintro ⟨type, k', htype, h⟩
    obtain ⟨rfl, rfl⟩ := typeAt_word_iff.mp htype
    exact h
  · intro h
    exact ⟨_, k, .name, h⟩

/-- An integer that no dots follow is a type. -/
theorem takesType_integer_iff {text : String} (hk : k.head? ≠ some .dots) :
    TakesType forest fs (⟨.integer, text⟩ :: k) ↔ Accepts forest fs (.leaf .integer text) k := by
  constructor
  · rintro ⟨type, k', htype, h⟩
    obtain ⟨rfl, rfl⟩ := (typeAt_integer_iff hk).mp htype
    exact h
  · intro h
    exact ⟨_, k, .integer hk, h⟩

/-- A parenthesis opens a list of types. -/
theorem takesType_openParen_iff {opener : String} :
    TakesType forest fs (⟨.openParen, opener⟩ :: k) ↔
      Demands forest .item (⟨.typeSexpr, [.leaf .openParen opener]⟩ :: fs) k := by
  constructor
  · rintro ⟨type, k', htype, h⟩
    obtain ⟨types, closer, htypes, rfl⟩ := typeAt_openParen_iff.mp htype
    exact ⟨types, _, htypes, closer, k', rfl, h⟩
  · rintro ⟨types, k', htypes, closer, k'', rfl, h⟩
    exact ⟨_, k'', typeAt_openParen_iff.mpr ⟨types, closer, htypes, rfl⟩, h⟩

/-- An integer that dots follow opens a range. -/
theorem takesType_dots_iff {lower : String} :
    TakesType forest fs (⟨.integer, lower⟩ :: .dots :: k) ↔
      Demands forest .dots (⟨.typeRange, [.leaf .integer lower]⟩ :: fs) (.dots :: k) := by
  constructor
  · rintro ⟨type, k', htype, h⟩
    obtain ⟨upper, rfl, rfl⟩ := typeAt_dots_iff.mp htype
    exact ⟨_, rfl, upper, k', rfl, h⟩
  · rintro ⟨k₁, heq, upper, k', rfl, h⟩
    cases heq
    exact ⟨_, k', .range, h⟩

/-- Behind the dots of a range comes its upper bound. -/
theorem demands_dots_iff :
    Demands forest .dots (f :: fs) (.dots :: k) ↔
      Demands forest .bound (f.push (.leaf .opalias "..") :: fs) k := by
  constructor
  · rintro ⟨k', heq, h⟩
    cases heq
    exact h
  · intro h
    exact ⟨k, rfl, h⟩

end Grammar

end GolfAssist
