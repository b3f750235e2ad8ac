import GolfAssist.Proofs.Acceptance
import GolfAssist.Proofs.Leaves

/-!
# The types that expressions are given

* `Phrase.IsType`, `Phrase.IsArgument` — the grammar of types: a name, a range, or a list in
  parentheses that begins with a name and goes on with types and integers.
* `Phrase.HeadsNamed` — every list of types in a phrase begins with a name.
* `Grammar.TypeAt.isArgument_iff` — of the types that are read, the arguments of the grammar are
  those whose lists all begin with a name.
* `Document.annotation_isType_iff` — what an expression is given in a source without diagnostics is
  a type of the grammar if and only if it is no integer and its lists begin with names.

A reader takes a type in the same way wherever it stands: behind a colon, at the head of a list, and
among the arguments. So an integer passes in all of these places, although only an argument may be
one, and a list need not have a head. Nothing else passes that the grammar of types does not have.
-/

namespace GolfAssist

open Grammar

/-! ## Phrases and what is below them -/

namespace Phrase

/-- What the phrase stands for. -/
def kind : Phrase → Node.Kind
  | leaf kind _ => kind
  | node kind _ => kind

/-- The phrases that it is made of. -/
def parts : Phrase → List Phrase
  | leaf _ _ => []
  | node _ parts => parts

@[simp] theorem kind_leaf (kind : Node.Kind) (text : String) : (leaf kind text).kind = kind := rfl

@[simp] theorem kind_node (kind : Node.Kind) (ps : List Phrase) : (node kind ps).kind = kind := rfl

mutual

/-- The phrase and all that is below it, in document order. -/
def preorder : Phrase → List Phrase
  | leaf kind text => [leaf kind text]
  | node kind parts => node kind parts :: forestPreorder parts

/-- Neighbouring phrases and all that is below them. -/
def forestPreorder : List Phrase → List Phrase
  | [] => []
  | p :: ps => preorder p ++ forestPreorder ps

end

variable {p q : Phrase} {ps : List Phrase} {P : Phrase → Prop}

/-- What is below neighbouring phrases is below one of them. -/
theorem mem_forestPreorder_iff : q ∈ forestPreorder ps ↔ ∃ p ∈ ps, q ∈ p.preorder := by
  induction ps with
  | nil => simp [forestPreorder]
  | cons p ps ih => simp [forestPreorder, ih]

/-- What is below a phrase is the phrase itself, or is below one of its parts. -/
theorem mem_preorder_iff : q ∈ p.preorder ↔ q = p ∨ ∃ part ∈ p.parts, q ∈ part.preorder := by
  cases p with
  | leaf kind text => simp [preorder, parts]
  | node kind ps => rw [preorder, List.mem_cons, mem_forestPreorder_iff, parts]

/-- `P` holds of the phrase and of all that is below it. -/
def Throughout (P : Phrase → Prop) (p : Phrase) : Prop := ∀ q ∈ p.preorder, P q

/-- `P` holds throughout a phrase if it holds of the phrase, and throughout its parts. -/
theorem throughout_iff : Throughout P p ↔ P p ∧ ∀ part ∈ p.parts, Throughout P part := by
  constructor
  · intro h
    refine ⟨h p (mem_preorder_iff.mpr (.inl rfl)), fun part hpart q hq => ?_⟩
    exact h q (mem_preorder_iff.mpr (.inr ⟨part, hpart, hq⟩))
  · rintro ⟨hp, hparts⟩ q hq
    rcases mem_preorder_iff.mp hq with rfl | ⟨part, hpart, hq⟩
    · exact hp
    · exact hparts part hpart q hq

@[simp] theorem throughout_leaf_iff {kind : Node.Kind} {text : String} :
    Throughout P (leaf kind text) ↔ P (leaf kind text) := by
  rw [throughout_iff, parts]
  simp

@[simp] theorem throughout_node_iff {kind : Node.Kind} :
    Throughout P (node kind ps) ↔ P (node kind ps) ∧ ∀ p ∈ ps, Throughout P p := by
  rw [throughout_iff, parts]

/-- `P` holds throughout a list if it holds of the list, of its brackets and throughout the rest. -/
theorem throughout_list_iff {kind left right : Node.Kind} {opener closer : String} :
    Throughout P (node kind (leaf left opener :: ps ++ [leaf right closer])) ↔
      P (node kind (leaf left opener :: ps ++ [leaf right closer])) ∧
        (P (leaf left opener) ∧ P (leaf right closer)) ∧ ∀ p ∈ ps, Throughout P p := by
  rw [throughout_node_iff, List.forall_mem_append, List.forall_mem_cons, List.forall_mem_singleton,
    throughout_leaf_iff, throughout_leaf_iff, and_right_comm]

/-! ## The grammar of types -/

mutual

/-- The phrase is a type. -/
inductive IsType : Phrase → Prop where
  /-- The name of a type. -/
  | name {text : String} : IsType (leaf .typeName text)
  /-- A name and its arguments in parentheses. -/
  | list {opener name closer : String} {args : List Phrase} (h : ∀ a ∈ args, IsArgument a) :
      IsType (node .typeSexpr
        (leaf .openParen opener :: leaf .typeName name :: args ++ [leaf .closeParen closer]))
  /-- Two integers with dots between them. -/
  | range {lower upper : String} :
      IsType (node .typeRange [leaf .integer lower, leaf .opalias "..", leaf .integer upper])

/-- The phrase can be an argument in a list of types. -/
inductive IsArgument : Phrase → Prop where
  /-- A type. -/
  | type {p : Phrase} (h : IsType p) : IsArgument p
  /-- An integer. -/
  | integer {text : String} : IsArgument (leaf .integer text)

end

/-- A type is an argument that is no integer. -/
theorem isType_iff : IsType p ↔ IsArgument p ∧ p.kind ≠ .integer := by
  constructor
  · intro h
    refine ⟨.type h, ?_⟩
    cases h <;> simp
  · rintro ⟨h, hk⟩
    cases h with
    | type h => exact h
    | integer => exact absurd rfl hk

/-- The second part of the phrase is the name of a type. -/
def isHeaded : Phrase → Bool
  | node _ (_ :: leaf .typeName _ :: _) => true
  | _ => false

/-- Every list of types in the phrase begins with a name. -/
def HeadsNamed (p : Phrase) : Prop := Throughout (fun q => q.kind = .typeSexpr → q.isHeaded) p

instance (p : Phrase) : Decidable p.HeadsNamed :=
  inferInstanceAs (Decidable (∀ q ∈ p.preorder, q.kind = .typeSexpr → q.isHeaded))

/-- A list between parentheses has a head if it begins with a name. -/
theorem isHeaded_list_iff {kind : Node.Kind} {opener closer : String} :
    isHeaded (node kind (leaf .openParen opener :: ps ++ [leaf .closeParen closer])) ↔
      ∃ name args, ps = leaf .typeName name :: args := by
  constructor
  · intro h
    rcases ps with _ | ⟨p, args⟩
    · cases h
    · rw [List.cons_append, List.cons_append] at h
      unfold isHeaded at h
      split at h
      · rename_i heq
        obtain rfl := (List.cons.inj (List.cons.inj (node.inj heq).2).2).1
        exact ⟨_, args, rfl⟩
      · cases h
  · rintro ⟨name, args, rfl⟩
    rfl

/-- A list of types is an argument if it begins with a name and its members are arguments. -/
theorem isArgument_list_iff {opener closer : String} :
    IsArgument (node .typeSexpr (leaf .openParen opener :: ps ++ [leaf .closeParen closer])) ↔
      isHeaded (node .typeSexpr (leaf .openParen opener :: ps ++ [leaf .closeParen closer])) ∧
        ∀ p ∈ ps, IsArgument p := by
  rw [isHeaded_list_iff]
  constructor
  · generalize hp : node .typeSexpr (leaf .openParen opener :: ps ++ [leaf .closeParen closer]) = p
    intro h
    cases h with
    | integer => cases hp
    | type h =>
        cases h with
        | name => cases hp
        | range => cases hp
        | @list _ name _ args h =>
            obtain ⟨hparts, -⟩ := List.append_inj' (node.inj hp).2 rfl
            obtain rfl := (List.cons.inj hparts).2
            exact ⟨⟨name, args, rfl⟩, List.forall_mem_cons.mpr ⟨.type .name, h⟩⟩
  · rintro ⟨⟨name, args, rfl⟩, h⟩
    exact .type (.list (List.forall_mem_cons.mp h).2)

/-- The lists in a list begin with names if the list does, and if those among its members do. -/
theorem headsNamed_list_iff {opener closer : String} :
    HeadsNamed (node .typeSexpr (leaf .openParen opener :: ps ++ [leaf .closeParen closer])) ↔
      isHeaded (node .typeSexpr (leaf .openParen opener :: ps ++ [leaf .closeParen closer])) ∧
        ∀ p ∈ ps, HeadsNamed p := by
  rw [HeadsNamed, throughout_list_iff]
  simp [HeadsNamed]

/-! ## What is read -/

/-- If the phrase is an expression with a type, it is a value, a colon and a type. -/
def IsAnnotated (p : Phrase) : Prop :=
  p.kind = .typedExpr → ∃ value colon type k k',
    p = node .typedExpr [value, leaf .colon colon, type] ∧ TypeAt k type k'

end Phrase

/-- A lexeme that is a value by itself is no expression with a type. -/
theorem Lexeme.ne_typedExpr_of_atomKind? {l : Lexeme} {kind : Node.Kind}
    (h : l.atomKind? = some kind) : kind ≠ .typedExpr := by
  unfold atomKind? at h
  split at h <;> grind [Node.Kind.ofWord_eq]

namespace Grammar

open Phrase

mutual

/-- Of the types that are read, the arguments are those whose lists all begin with a name. -/
theorem TypeAt.isArgument_iff {k k' : List Lexeme} {p : Phrase} :
    TypeAt k p k' → (p.IsArgument ↔ p.HeadsNamed)
  | .name => iff_of_true (.type .name) (throughout_leaf_iff.mpr nofun)
  | .integer _ => iff_of_true .integer (throughout_leaf_iff.mpr nofun)
  | .range => iff_of_true (.type .range) (by simp [HeadsNamed])
  | .list h => by
      rw [isArgument_list_iff, headsNamed_list_iff]
      exact and_congr_right fun _ => forall₂_congr h.isArgument_iff

/-- So are those among any number of types. -/
theorem TypesAt.isArgument_iff {k k' : List Lexeme} {ps : List Phrase} :
    TypesAt k ps k' → ∀ p ∈ ps, (p.IsArgument ↔ p.HeadsNamed)
  | .none => by simp
  | .more h hs => List.forall_mem_cons.mpr ⟨h.isArgument_iff, hs.isArgument_iff⟩

end

mutual

/-- There are no expressions in a type. -/
theorem TypeAt.isAnnotated {k k' : List Lexeme} {p : Phrase} :
    TypeAt k p k' → p.Throughout IsAnnotated
  | .name => throughout_leaf_iff.mpr nofun
  | .integer _ => throughout_leaf_iff.mpr nofun
  | .range => by simp [IsAnnotated]
  | .list h => throughout_list_iff.mpr ⟨nofun, ⟨nofun, nofun⟩, h.isAnnotated⟩

/-- Nor are there any in any number of types. -/
theorem TypesAt.isAnnotated {k k' : List Lexeme} {ps : List Phrase} :
    TypesAt k ps k' → ∀ p ∈ ps, p.Throughout IsAnnotated
  | .none => by simp
  | .more h hs => List.forall_mem_cons.mpr ⟨h.isAnnotated, hs.isAnnotated⟩

end

mutual

/-- Expressions in an atom have their types. -/
theorem AtomAt.isAnnotated {k k' : List Lexeme} {p : Phrase} :
    AtomAt k p k' → p.Throughout IsAnnotated
  | .token h => throughout_leaf_iff.mpr fun hk => absurd hk (Lexeme.ne_typedExpr_of_atomKind? h)
  | .list h => throughout_list_iff.mpr ⟨nofun, ⟨nofun, nofun⟩, h.isAnnotated⟩
  | .variants h => throughout_list_iff.mpr ⟨nofun, ⟨nofun, nofun⟩, h.isAnnotated⟩

/-- So have an expression and those in it. -/
theorem ExprAt.isAnnotated {k k' : List Lexeme} {p : Phrase} :
    ExprAt k p k' → p.Throughout IsAnnotated
  | .plain h => h.isAnnotated
  | .typed h ht => by
      refine throughout_node_iff.mpr ⟨fun _ => ⟨_, _, _, _, _, rfl, ht⟩, ?_⟩
      simp [h.isAnnotated, ht.isAnnotated, IsAnnotated]

/-- So have those among any number of items. -/
theorem ItemsAt.isAnnotated {slashes : Bool} {k k' : List Lexeme} {ps : List Phrase} :
    ItemsAt slashes k ps k' → ∀ p ∈ ps, p.Throughout IsAnnotated
  | .none => by simp
  | .expr h hs => List.forall_mem_cons.mpr ⟨h.isAnnotated, hs.isAnnotated⟩
  | .semicolon hs => List.forall_mem_cons.mpr ⟨throughout_leaf_iff.mpr nofun, hs.isAnnotated⟩
  | .slash hs => List.forall_mem_cons.mpr ⟨throughout_leaf_iff.mpr nofun, hs.isAnnotated⟩

end

end Grammar

/-! ## Phrases of nodes -/

namespace Node

variable {source : String} {n root : Node} {ns : List Node}

/-- The phrase of a node stands for what the node does. -/
theorem kind_phrase (source : String) (n : Node) : (n.phrase source).kind = n.kind := by
  obtain ⟨id, kind, span, children⟩ := n
  rw [phrase]
  split <;> rfl

/-- The phrase of a node is made of those of its children. -/
theorem parts_phrase (source : String) (n : Node) :
    (n.phrase source).parts = phrases source n.children := by
  obtain ⟨id, kind, span, children⟩ := n
  rw [phrase]
  split
  · rename_i hnil
    rw [List.isEmpty_iff.mp hnil]
    rfl
  · rfl

/-- Of neighbouring nodes, all but the comments leave their phrases. -/
theorem phrase_mem_phrases (hn : n ∈ ns) (hk : n.kind ≠ .lineComment) :
    n.phrase source ∈ phrases source ns := by
  obtain ⟨before, after, rfl⟩ := List.append_of_mem hn
  rw [phrases_append, phrases_cons_of_ne_comment hk]
  simp

/-- A node that is no comment leaves its phrase below that of the root, if nothing hangs below
comments. -/
theorem phrase_mem_preorder (hleaf : ∀ m ∈ root.preorder, m.kind = .lineComment → m.isLeaf)
    (hn : n ∈ root.preorder) (hk : n.kind ≠ .lineComment) :
    n.phrase source ∈ (root.phrase source).preorder := by
  induction root using induct with
  | step root ih =>
      rcases mem_preorder_iff.mp hn with rfl | ⟨c, hc, hnc⟩
      · exact Phrase.mem_preorder_iff.mpr (.inl rfl)
      · have hcomment : c.kind ≠ .lineComment := by
          intro hkind
          have hnil := hleaf c (mem_preorder_of_mem_children (self_mem_preorder root) hc) hkind
          rw [preorder_eq, List.isEmpty_iff.mp hnil] at hnc
          rw [List.mem_singleton.mp hnc] at hk
          exact hk hkind
        have hbelow := ih c hc (fun m hm => hleaf m (mem_preorder_iff.mpr (.inr ⟨c, hc, hm⟩))) hnc
        rw [Phrase.mem_preorder_iff, parts_phrase]
        exact .inr ⟨_, phrase_mem_phrases hc hcomment, hbelow⟩

end Node

/-! ## Documents -/

namespace Document

variable {source : String} {n : Node}

/-- In a source without diagnostics, expressions with a type are a value, a colon and a type. -/
theorem exists_typeAt_of_typedExpr (h : (read source).diagnostics = [])
    (hn : n ∈ (read source).tree.preorder) (hk : n.kind = .typedExpr) :
    ∃ value colon type k k',
      n.phrase source = .node .typedExpr [value, .leaf .colon colon, type] ∧ TypeAt k type k' := by
  obtain ⟨⟨hfindings, hunknown⟩, -⟩ := diagnostics_eq_nil_iff.mp h
  have hprogram : IsProgram _ _ := isProgram_iff.mpr ⟨hfindings, hunknown, rfl⟩
  have htree : ((read source).tree.phrase source).Throughout Phrase.IsAnnotated := by
    rw [Phrase.throughout_iff, Node.parts_phrase]
    refine ⟨fun hkind => ?_, hprogram.isAnnotated⟩
    rw [Node.kind_phrase, kind_tree] at hkind
    cases hkind
  have hleaf : ∀ m ∈ (read source).tree.preorder, m.kind = .lineComment → m.isLeaf :=
    fun m hm hcomment => isLeaf_of_mem_preorder hm (by simp [hcomment]) (by rw [hcomment]; rfl)
  refine htree _ (Node.phrase_mem_preorder hleaf hn (by simp [hk])) ?_
  rw [Node.kind_phrase, hk]

/-- The phrase is what an expression of the source is given for its type. -/
def IsAnnotation (source : String) (type : Phrase) : Prop :=
  ∃ n ∈ (read source).tree.preorder, ∃ value colon,
    n.phrase source = .node .typedExpr [value, .leaf .colon colon, type]

/-- What a child of the root gives is given in the source. -/
theorem isAnnotation_of_child {value type : Phrase} {colon : String}
    (hn : (read source).tree.children = [n])
    (h : n.phrase source = .node .typedExpr [value, .leaf .colon colon, type]) :
    IsAnnotation source type := by
  refine ⟨n, Node.mem_preorder_iff.mpr (.inr ⟨n, ?_, Node.self_mem_preorder n⟩), value, colon, h⟩
  rw [hn]
  exact List.mem_singleton_self n

/-- **Types follow their grammar but for heads.** In a source without diagnostics, all expressions
with a type are a value, a colon and a type. Each of these types is one that is read as such; it is
one of the grammar of types if and only if it is no integer and all lists in it begin with a
name. -/
theorem annotation_isType_iff (source : String) (h : (read source).diagnostics = []) :
    (∀ n ∈ (read source).tree.preorder, n.kind = .typedExpr → ∃ value colon type,
      n.phrase source = .node .typedExpr [value, .leaf .colon colon, type]) ∧
    ∀ type, IsAnnotation source type → (∃ k k', TypeAt k type k') ∧
      (type.IsType ↔ type.kind ≠ .integer ∧ type.HeadsNamed) := by
  constructor
  · intro n hn hk
    obtain ⟨value, colon, type, -, -, hphrase, -⟩ := exists_typeAt_of_typedExpr h hn hk
    exact ⟨value, colon, type, hphrase⟩
  · rintro type ⟨n, hn, value, colon, hphrase⟩
    have hk : n.kind = .typedExpr := by rw [← Node.kind_phrase source, hphrase, Phrase.kind_node]
    obtain ⟨value', colon', type', k, k', hphrase', htype⟩ := exists_typeAt_of_typedExpr h hn hk
    rw [hphrase] at hphrase'
    obtain ⟨rfl, rfl, rfl⟩ : value = value' ∧ colon = colon' ∧ type = type' := by
      simpa using hphrase'
    refine ⟨⟨k, k', htype⟩, ?_⟩
    rw [Phrase.isType_iff, htype.isArgument_iff, and_comm]

/-- A list in a list, and a comment among the arguments: this is a type of the grammar. -/
theorem annotation_isType_iff_nested :
    (read "x:(Map % k\n5 (List 0..9))").diagnostics = [] ∧
      ∃ type, IsAnnotation "x:(Map % k\n5 (List 0..9))" type ∧ type.IsType := by
  have hnil : (read "x:(Map % k\n5 (List 0..9))").diagnostics = [] := rfl
  have htree : (read "x:(Map % k\n5 (List 0..9))").tree.children = [⟨2, .typedExpr, ⟨0, 25⟩,
      [⟨1, .builtin, ⟨0, 1⟩, []⟩, ⟨3, .colon, ⟨1, 2⟩, []⟩, ⟨4, .typeSexpr, ⟨2, 25⟩,
        [⟨5, .openParen, ⟨2, 3⟩, []⟩, ⟨6, .typeName, ⟨3, 6⟩, []⟩, ⟨7, .lineComment, ⟨7, 10⟩, []⟩,
          ⟨8, .integer, ⟨11, 12⟩, []⟩, ⟨9, .typeSexpr, ⟨13, 24⟩, [⟨10, .openParen, ⟨13, 14⟩, []⟩,
            ⟨11, .typeName, ⟨14, 18⟩, []⟩, ⟨12, .typeRange, ⟨19, 23⟩, [⟨13, .integer, ⟨19, 20⟩, []⟩,
              ⟨14, .opalias, ⟨20, 22⟩, []⟩, ⟨15, .integer, ⟨22, 23⟩, []⟩]⟩,
            ⟨16, .closeParen, ⟨23, 24⟩, []⟩]⟩, ⟨17, .closeParen, ⟨24, 25⟩, []⟩]⟩]⟩] := rfl
  have htype := isAnnotation_of_child htree rfl
  exact ⟨hnil, _, htype, ((annotation_isType_iff _ hnil).2 _ htype).2.mpr (by decide)⟩

/-- An integer is taken for a type, a list may begin with one, and it may be empty. None of these is
a type of the grammar. -/
theorem annotation_without_name :
    ((read "x:5").diagnostics = [] ∧ ∃ type, IsAnnotation "x:5" type ∧ ¬ type.IsType) ∧
    ((read "x:(5)").diagnostics = [] ∧ ∃ type, IsAnnotation "x:(5)" type ∧ ¬ type.IsType) ∧
    ((read "x:()").diagnostics = [] ∧ ∃ type, IsAnnotation "x:()" type ∧ ¬ type.IsType) := by
  have hinteger : (read "x:5").tree.children = [⟨2, .typedExpr, ⟨0, 3⟩, [⟨1, .builtin, ⟨0, 1⟩, []⟩,
      ⟨3, .colon, ⟨1, 2⟩, []⟩, ⟨4, .integer, ⟨2, 3⟩, []⟩]⟩] := rfl
  have hlist : (read "x:(5)").tree.children = [⟨2, .typedExpr, ⟨0, 5⟩, [⟨1, .builtin, ⟨0, 1⟩, []⟩,
      ⟨3, .colon, ⟨1, 2⟩, []⟩, ⟨4, .typeSexpr, ⟨2, 5⟩, [⟨5, .openParen, ⟨2, 3⟩, []⟩,
        ⟨6, .integer, ⟨3, 4⟩, []⟩, ⟨7, .closeParen, ⟨4, 5⟩, []⟩]⟩]⟩] := rfl
  have hempty : (read "x:()").tree.children = [⟨2, .typedExpr, ⟨0, 4⟩, [⟨1, .builtin, ⟨0, 1⟩, []⟩,
      ⟨3, .colon, ⟨1, 2⟩, []⟩, ⟨4, .typeSexpr, ⟨2, 4⟩, [⟨5, .openParen, ⟨2, 3⟩, []⟩,
        ⟨6, .closeParen, ⟨3, 4⟩, []⟩]⟩]⟩] := rfl
  refine ⟨⟨rfl, _, isAnnotation_of_child hinteger rfl, fun h => ?_⟩,
    ⟨rfl, _, isAnnotation_of_child hlist rfl, fun h => ?_⟩,
    ⟨rfl, _, isAnnotation_of_child hempty rfl, fun h => ?_⟩⟩
  · exact (Phrase.isType_iff.mp h).2 rfl
  · have hheaded := ((@Phrase.isArgument_list_iff [.leaf .integer "5"] "(" ")").mp (.type h)).1
    cases hheaded
  · have hheaded := ((@Phrase.isArgument_list_iff [] "(" ")").mp (.type h)).1
    cases hheaded

end Document

end GolfAssist
