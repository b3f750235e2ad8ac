import GolfAssist.Reader.Step

/-!
# The grammar of programs

* `Lexeme`, `Phrase` — a token and a syntax tree without their places in a source.
* `Grammar.TypeAt`, `Grammar.AtomAt`, `Grammar.ExprAt` — a list of lexemes begins with a type, an
  atom or an expression: which one it is, and what is left behind it.
* `Grammar.TypesAt`, `Grammar.ItemsAt` — the same for any number of types, and for any number of
  expressions with what divides them.
* `Grammar.IsProgram` — all of the lexemes are the items of a program.

The grammar has no errors and no recovery, and no word about the order in which a reader finds
out. Where two rules begin with the same lexeme, nothing but what comes later decides between
them, with one exception that is written into the rule: an integer is a type of its own only if no
dots follow it.

Each rule but the empty ones begins with a lexeme of its own, so what a derivation is can be read
off the first lexeme. The second half of the module says how.
-/

namespace GolfAssist

/-- A token without its place. -/
structure Lexeme where
  /-- The sort of the token. -/
  kind : Token.Kind
  /-- Its characters. -/
  text : String
deriving DecidableEq, Repr

/-- The token without its place. -/
def Token.lexeme (t : Token) : Lexeme := ⟨t.kind, t.text⟩

/-- The lexemes of tokens, without comments and without the end of the source. -/
def Token.lexemes (ts : List Token) : List Lexeme :=
  (ts.filter fun t => !t.isTrivia && t.kind ≠ .eof).map Token.lexeme

/-- A syntax tree without the numbers and the places of its nodes. -/
inductive Phrase where
  /-- A token that stands for something. -/
  | leaf (kind : Node.Kind) (text : String)
  /-- What several phrases stand for together. -/
  | node (kind : Node.Kind) (parts : List Phrase)

/-- What the lexeme stands for if it is a value by itself. -/
def Lexeme.atomKind? (l : Lexeme) : Option Node.Kind :=
  match l.kind with
  | .variable => some .variable
  | .integer => some .integer
  | .string => some .string
  | .word => some (.ofWord l.text)
  | .op => some .opalias
  | _ => none

/-- The dots between the bounds of a range. -/
def Lexeme.dots : Lexeme := ⟨.op, ".."⟩

namespace Grammar

/-! ## The rules -/

mutual

/-- The lexemes begin with a type. -/
inductive TypeAt : List Lexeme → Phrase → List Lexeme → Prop where
  /-- The name of a type. -/
  | name {text : String} {k : List Lexeme} :
      TypeAt (⟨.word, text⟩ :: k) (.leaf .typeName text) k
  /-- Types in parentheses. -/
  | list {opener closer : String} {types : List Phrase} {k k' : List Lexeme}
      (h : TypesAt k types (⟨.closeParen, closer⟩ :: k')) :
      TypeAt (⟨.openParen, opener⟩ :: k)
        (.node .typeSexpr (.leaf .openParen opener :: types ++ [.leaf .closeParen closer])) k'
  /-- Two integers with dots between them. -/
  | range {lower upper : String} {k : List Lexeme} :
      TypeAt (⟨.integer, lower⟩ :: .dots :: ⟨.integer, upper⟩ :: k)
        (.node .typeRange [.leaf .integer lower, .leaf .opalias "..", .leaf .integer upper]) k
  /-- An integer that no dots follow. -/
  | integer {text : String} {k : List Lexeme} (h : k.head? ≠ some .dots) :
      TypeAt (⟨.integer, text⟩ :: k) (.leaf .integer text) k

/-- The lexemes begin with any number of types. -/
inductive TypesAt : List Lexeme → List Phrase → List Lexeme → Prop where
  /-- No type. -/
  | none {k : List Lexeme} : TypesAt k [] k
  /-- One type and then more. -/
  | more {type : Phrase} {types : List Phrase} {k k₁ k₂ : List Lexeme} (h : TypeAt k type k₁)
      (hs : TypesAt k₁ types k₂) : TypesAt k (type :: types) k₂

end

mutual

/-- The lexemes begin with an expression that has no type of its own. -/
inductive AtomAt : List Lexeme → Phrase → List Lexeme → Prop where
  /-- One lexeme that is a value. -/
  | token {l : Lexeme} {kind : Node.Kind} {k : List Lexeme} (h : l.atomKind? = some kind) :
      AtomAt (l :: k) (.leaf kind l.text) k
  /-- Expressions in parentheses. -/
  | list {opener closer : String} {items : List Phrase} {k k' : List Lexeme}
      (h : ItemsAt false k items (⟨.closeParen, closer⟩ :: k')) :
      AtomAt (⟨.openParen, opener⟩ :: k)
        (.node .sexpr (.leaf .openParen opener :: items ++ [.leaf .closeParen closer])) k'
  /-- Alternatives in braces. -/
  | variants {opener closer : String} {items : List Phrase} {k k' : List Lexeme}
      (h : ItemsAt true k items (⟨.closeBrace, closer⟩ :: k')) :
      AtomAt (⟨.openBrace, opener⟩ :: k)
        (.node .variants (.leaf .openBrace opener :: items ++ [.leaf .closeBrace closer])) k'

/-- The lexemes begin with an expression. -/
inductive ExprAt : List Lexeme → Phrase → List Lexeme → Prop where
  /-- An atom alone. -/
  | plain {atom : Phrase} {k k' : List Lexeme} (h : AtomAt k atom k') : ExprAt k atom k'
  /-- An atom, a colon and a type. -/
  | typed {colon : String} {atom type : Phrase} {k k₁ k₂ : List Lexeme}
      (h : AtomAt k atom (⟨.colon, colon⟩ :: k₁)) (ht : TypeAt k₁ type k₂) :
      ExprAt k (.node .typedExpr [atom, .leaf .colon colon, type]) k₂

/-- The lexemes begin with any number of expressions and what divides them: semicolons, and slashes
where these are allowed. -/
inductive ItemsAt : Bool → List Lexeme → List Phrase → List Lexeme → Prop where
  /-- Nothing. -/
  | none {slashes : Bool} {k : List Lexeme} : ItemsAt slashes k [] k
  /-- An expression and then more. -/
  | expr {slashes : Bool} {expr : Phrase} {items : List Phrase} {k k₁ k₂ : List Lexeme}
      (h : ExprAt k expr k₁) (hs : ItemsAt slashes k₁ items k₂) :
      ItemsAt slashes k (expr :: items) k₂
  /-- A semicolon and then more. -/
  | semicolon {slashes : Bool} {text : String} {items : List Phrase} {k k' : List Lexeme}
      (hs : ItemsAt slashes k items k') :
      ItemsAt slashes (⟨.semicolon, text⟩ :: k) (.leaf .semicolon text :: items) k'
  /-- A slash between alternatives and then more. -/
  | slash {text : String} {items : List Phrase} {k k' : List Lexeme}
      (hs : ItemsAt true k items k') :
      ItemsAt true (⟨.slash, text⟩ :: k) (.leaf .slash text :: items) k'

end

/-- The lexemes are a program: expressions and semicolons, any number of them. -/
def IsProgram (k : List Lexeme) (forest : List Phrase) : Prop := ItemsAt false k forest []

/-! ## What the first lexeme decides -/

variable {l : Lexeme} {k k' : List Lexeme} {p : Phrase} {ps : List Phrase} {slashes : Bool}

/-- A type begins with a word, an integer or a parenthesis. -/
theorem TypeAt.startsType (h : TypeAt (l :: k) p k') : l.kind.startsType := by
  cases h <;> rfl

/-- There is no type in nothing. -/
theorem not_typeAt_nil : ¬ TypeAt [] p k' := by
  intro h
  cases h

/-- A word is the name of a type. -/
theorem typeAt_word_iff {text : String} :
    TypeAt (⟨.word, text⟩ :: k) p k' ↔ p = .leaf .typeName text ∧ k' = k := by
  constructor
  · intro h
    cases h
    exact ⟨rfl, rfl⟩
  · rintro ⟨rfl, rfl⟩
    exact .name

/-- An integer that no dots follow is a type. -/
theorem typeAt_integer_iff {text : String} (hk : k.head? ≠ some .dots) :
    TypeAt (⟨.integer, text⟩ :: k) p k' ↔ p = .leaf .integer text ∧ k' = k := by
  constructor
  · intro h
    cases h with
    | range => exact absurd rfl hk
    | integer _ => exact ⟨rfl, rfl⟩
  · rintro ⟨rfl, rfl⟩
    exact .integer hk

/-- An integer that dots follow is the lower bound of a range. -/
theorem typeAt_dots_iff {lower : String} :
    TypeAt (⟨.integer, lower⟩ :: .dots :: k) p k' ↔ ∃ upper, k = ⟨.integer, upper⟩ :: k' ∧
      p = .node .typeRange [.leaf .integer lower, .leaf .opalias "..", .leaf .integer upper] := by
  constructor
  · intro h
    cases h with
    | range => exact ⟨_, rfl, rfl⟩
    | integer hk => exact absurd rfl hk
  · rintro ⟨upper, rfl, rfl⟩
    exact .range

/-- A parenthesis where a type begins opens a list of types. -/
theorem typeAt_openParen_iff {opener : String} :
    TypeAt (⟨.openParen, opener⟩ :: k) p k' ↔
      ∃ types closer, TypesAt k types (⟨.closeParen, closer⟩ :: k') ∧
        p = .node .typeSexpr (.leaf .openParen opener :: types ++ [.leaf .closeParen closer]) := by
  constructor
  · intro h
    cases h with
    | list h => exact ⟨_, _, h, rfl⟩
  · rintro ⟨types, closer, h, rfl⟩
    exact .list h

/-- Any number of types is none, or one and then more. -/
theorem typesAt_iff :
    TypesAt k ps k' ↔ ps = [] ∧ k' = k ∨
      ∃ type types k₁, ps = type :: types ∧ TypeAt k type k₁ ∧ TypesAt k₁ types k' := by
  constructor
  · intro h
    cases h with
    | none => exact .inl ⟨rfl, rfl⟩
    | more h hs => exact .inr ⟨_, _, _, rfl, h, hs⟩
  · rintro (⟨rfl, rfl⟩ | ⟨type, types, k₁, rfl, h, hs⟩)
    · exact .none
    · exact .more h hs

/-- A lexeme that is a value is an atom. -/
theorem atomAt_token_iff {kind : Node.Kind} (hl : l.atomKind? = some kind) :
    AtomAt (l :: k) p k' ↔ p = .leaf kind l.text ∧ k' = k := by
  constructor
  · intro h
    cases h with
    | token h =>
        rw [hl] at h
        cases h
        exact ⟨rfl, rfl⟩
    | list _ => cases hl
    | variants _ => cases hl
  · rintro ⟨rfl, rfl⟩
    exact .token hl

/-- A parenthesis where a value begins opens a list of expressions. -/
theorem atomAt_openParen_iff {opener : String} :
    AtomAt (⟨.openParen, opener⟩ :: k) p k' ↔
      ∃ items closer, ItemsAt false k items (⟨.closeParen, closer⟩ :: k') ∧
        p = .node .sexpr (.leaf .openParen opener :: items ++ [.leaf .closeParen closer]) := by
  constructor
  · intro h
    cases h with
    | token h => cases h
    | list h => exact ⟨_, _, h, rfl⟩
  · rintro ⟨items, closer, h, rfl⟩
    exact .list h

/-- A brace opens alternatives. -/
theorem atomAt_openBrace_iff {opener : String} :
    AtomAt (⟨.openBrace, opener⟩ :: k) p k' ↔
      ∃ items closer, ItemsAt true k items (⟨.closeBrace, closer⟩ :: k') ∧
        p = .node .variants (.leaf .openBrace opener :: items ++ [.leaf .closeBrace closer]) := by
  constructor
  · intro h
    cases h with
    | token h => cases h
    | variants h => exact ⟨_, _, h, rfl⟩
  · rintro ⟨items, closer, h, rfl⟩
    exact .variants h

/-- An expression is an atom, with a colon and a type behind it or without. -/
theorem exprAt_iff :
    ExprAt k p k' ↔ AtomAt k p k' ∨ ∃ atom colon k₁ type,
      AtomAt k atom (⟨.colon, colon⟩ :: k₁) ∧ TypeAt k₁ type k' ∧
        p = .node .typedExpr [atom, .leaf .colon colon, type] := by
  constructor
  · intro h
    cases h with
    | plain h => exact .inl h
    | typed h ht => exact .inr ⟨_, _, _, _, h, ht, rfl⟩
  · rintro (h | ⟨atom, colon, k₁, type, h, ht, rfl⟩)
    · exact .plain h
    · exact .typed h ht

/-- There is no atom in nothing. -/
theorem not_exprAt_nil : ¬ ExprAt [] p k' := by
  intro h
  rcases exprAt_iff.mp h with h | ⟨_, _, _, _, h, _⟩ <;> cases h

/-- Any number of items is none, or begins with an expression, a semicolon or a slash. -/
theorem itemsAt_iff :
    ItemsAt slashes k ps k' ↔ ps = [] ∧ k' = k ∨
      (∃ expr items k₁, ps = expr :: items ∧ ExprAt k expr k₁ ∧ ItemsAt slashes k₁ items k') ∨
      (∃ text items k₁, ps = .leaf .semicolon text :: items ∧ k = ⟨.semicolon, text⟩ :: k₁ ∧
        ItemsAt slashes k₁ items k') ∨
      (slashes ∧ ∃ text items k₁, ps = .leaf .slash text :: items ∧ k = ⟨.slash, text⟩ :: k₁ ∧
        ItemsAt slashes k₁ items k') := by
  constructor
  · intro h
    cases h with
    | none => exact .inl ⟨rfl, rfl⟩
    | expr h hs => exact .inr (.inl ⟨_, _, _, rfl, h, hs⟩)
    | semicolon hs => exact .inr (.inr (.inl ⟨_, _, _, rfl, rfl, hs⟩))
    | slash hs => exact .inr (.inr (.inr ⟨rfl, _, _, _, rfl, rfl, hs⟩))
  · rintro (⟨rfl, rfl⟩ | ⟨expr, items, k₁, rfl, h, hs⟩ | ⟨text, items, k₁, rfl, rfl, hs⟩ |
      ⟨rfl, text, items, k₁, rfl, rfl, hs⟩)
    · exact .none
    · exact .expr h hs
    · exact .semicolon hs
    · exact .slash hs

end Grammar

end GolfAssist
