import Mathlib.Data.List.Forall2
import GolfAssist.Proofs.Tree.Preorder
import GolfAssist.Tree.Dump

/-!
# What a listing tells about its tree

* `Text.append_inj_of_class` — two texts are cut alike where a class of characters ends.
* `Node.Path.content` — the line of a node without its end, which holds no line break.
* `Node.Path.mark` — what the line tells about its node: depth, kind and span.
  `Node.Path.mark_eq_of_content_eq` reads it back.
* `Node.unnumbered` — a tree without its numbers. The marks of its nodes in document order make it
  up: `Node.unnumbered_of_marks_eq`.
* `Node.dump_determines_tree` — equal listings are listings of equal trees, but for the numbers.

A line is read from its left: blanks up to the name of the kind, the name up to its sign, and two
numbers that end where digits do. The text behind them is not looked at; all it has to do is to
keep to its line. Depths alone say where the trees below a node end: at the first node that is not
deeper.
-/

namespace GolfAssist

namespace Text

/-! ## Cutting a text where a class ends -/

/-- Two parts of a text that are all in a class, with nothing of the class behind them, are the same
part. -/
theorem append_inj_of_class {p : Char → Bool} {a a' x x' : List Char} (h : a ++ x = a' ++ x')
    (ha : ∀ c ∈ a, p c) (ha' : ∀ c ∈ a', p c) (hx : x.head?.any p = false)
    (hx' : x'.head?.any p = false) : a = a' ∧ x = x' := by
  have hfirst : ∀ {a x : List Char}, (∀ c ∈ a, p c) → x.head?.any p = false →
      (a ++ x).takeWhile p = a := by
    intro a x ha hx
    rw [List.takeWhile_append_of_pos ha]
    cases x with
    | nil => simp
    | cons c x => simp_all
  have heq : a = a' := by rw [← hfirst ha hx, h, hfirst ha' hx']
  subst heq
  exact ⟨rfl, List.append_cancel_left h⟩

/-- Lines that hold no line break can be told from their text. -/
theorem lines_injective {ls ms : List (List Char)} (hl : ∀ l ∈ ls, '\n' ∉ l)
    (hm : ∀ m ∈ ms, '\n' ∉ m) (h : ls.flatMap (· ++ ['\n']) = ms.flatMap (· ++ ['\n'])) :
    ls = ms := by
  induction ls generalizing ms with
  | nil =>
      cases ms with
      | nil => rfl
      | cons m ms => simp at h
  | cons l ls ih =>
      cases ms with
      | nil => simp at h
      | cons m ms =>
          obtain ⟨hl, hls⟩ := List.forall_mem_cons.mp hl
          obtain ⟨hm, hms⟩ := List.forall_mem_cons.mp hm
          simp only [List.flatMap_cons, List.append_assoc, List.singleton_append] at h
          have hclass : ∀ {l : List Char}, '\n' ∉ l → ∀ c ∈ l, (c != '\n') = true :=
            fun hl c hc => bne_iff_ne.mpr fun hnewline => hl (hnewline ▸ hc)
          obtain ⟨rfl, hrest⟩ := append_inj_of_class h (hclass hl) (hclass hm) rfl rfl
          rw [ih hls hms (List.cons.inj hrest).2]

/-- The digits of a number are not a line break. -/
theorem newline_not_mem_toDigits {base : Nat} (hbase : 1 < base) (n : Nat) :
    '\n' ∉ Nat.toDigits base n := by
  induction n using Nat.strongRecOn with
  | ind n ih =>
      rw [Nat.toDigits_eq_if hbase]
      split
      · simp
      · have hlt : n / base < n := Nat.div_lt_self (by omega) hbase
        simp [ih _ hlt]

/-- A text between quotes holds no line break. -/
theorem newline_not_mem_quoted (cs : List Char) : '\n' ∉ quoted cs := by
  have hchar : ∀ c, '\n' ∉ quoteChar c := by
    intro c
    fun_cases quoteChar c with
    | case1 | case2 | case3 | case4 | case5 | case6 => decide
    | case7 =>
        have hdigits := newline_not_mem_toDigits (show 1 < 16 by decide) c.toNat
        simp [hdigits]
    | case8 _ _ _ _ hnewline => exact fun h => hnewline (List.mem_singleton.mp h).symm
  simp [quoted, hchar]

end Text

namespace Node

/-! ## Lines -/

/-- All kinds. -/
def Kind.all : List Kind :=
  [.program, .sexpr, .variants, .typedExpr, .variable, .integer, .string, .builtin, .nullary,
    .opalias, .typeName, .typeSexpr, .typeRange, .lineComment, .openParen, .closeParen, .openBrace,
    .closeBrace, .colon, .slash, .semicolon, .error]

/-- No two kinds have one name. -/
theorem Kind.name_injective : Function.Injective Kind.name := by
  have hfind : ∀ kind : Kind, Kind.all.find? (·.name = kind.name) = some kind := by
    intro kind
    cases kind <;> decide
  intro kind kind' h
  have hkind := hfind kind
  rw [h, hfind kind'] at hkind
  exact (Option.some.inj hkind).symm

/-- A name has none of the signs that divide a line, nor a line break. -/
theorem Kind.mem_name (kind : Kind) :
    kind.name.toList ≠ [] ∧ ∀ c ∈ kind.name.toList, c ≠ ' ' ∧ c ≠ '@' ∧ c ≠ '\n' := by
  have hall : kind.name.toList.all fun c => c ≠ ' ' ∧ c ≠ '@' ∧ c ≠ '\n' := by
    cases kind <;> decide
  refine ⟨by cases kind <;> decide, fun c hc => ?_⟩
  simpa using List.all_eq_true.mp hall c hc

namespace Path

/-- The digits of a number. -/
def digits (n : Nat) : List Char := Nat.toDigits 10 n

theorem isDigit_of_mem_digits {n : Nat} : ∀ c ∈ digits n, c.isDigit :=
  fun _ h => Nat.isDigit_of_mem_toDigits (by decide) (by decide) h

theorem digits_injective : Function.Injective digits :=
  Function.LeftInverse.injective (g := (Nat.ofDigitChars 10 · 0)) fun _ =>
    Nat.ofDigitChars_toDigits (by decide) (by decide)

/-- What the line of a node shows of its text. -/
def shown (chars : List Char) (p : Path) : List Char :=
  if p.node.isLeaf then ' ' :: Text.quoted (p.node.textIn chars) else []

/-- The line of a node without its end. -/
def content (chars : List Char) (p : Path) : List Char :=
  List.replicate (2 * p.depth) ' ' ++ (p.node.kind.name.toList ++ '@' ::
    (digits p.node.span.start ++ '.' :: '.' :: (digits p.node.span.stop ++ p.shown chars)))

theorem toList_line (chars : List Char) (p : Path) :
    (p.line chars).toList = p.content chars ++ ['\n'] := by
  by_cases hleaf : p.node.isLeaf <;> simp [line, content, shown, digits, hleaf]

/-- A line ends where its line break is. -/
theorem newline_not_mem_content (chars : List Char) (p : Path) : '\n' ∉ p.content chars := by
  have hname : '\n' ∉ p.node.kind.name.toList := fun h => (p.node.kind.mem_name.2 _ h).2.2 rfl
  have hdigits : ∀ n, '\n' ∉ digits n := fun n => Text.newline_not_mem_toDigits (by decide) n
  have hshown : '\n' ∉ p.shown chars := by
    unfold shown
    split
    · simpa using Text.newline_not_mem_quoted (p.node.textIn chars)
    · exact List.not_mem_nil
  simp [content, hname, hdigits, hshown]

/-- What a line tells about its node. -/
def mark (p : Path) : Nat × Kind × Span := (p.depth, p.node.kind, p.node.span)

/-- **A line tells depth, kind and span of its node,** whatever text it is a line about. -/
theorem mark_eq_of_content_eq {chars chars' : List Char} {p q : Path}
    (h : p.content chars = q.content chars') : p.mark = q.mark := by
  have hblank : ∀ (kind : Kind) (rest : List Char),
      (kind.name.toList ++ rest).head?.any (· == ' ') = false := by
    intro kind rest
    obtain ⟨hne, hmem⟩ := kind.mem_name
    obtain ⟨c, cs, hname⟩ := List.exists_cons_of_ne_nil hne
    have hc : c ≠ ' ' := (hmem c (hname ▸ List.mem_cons_self)).1
    simpa [hname] using hc
  have hname : ∀ kind : Kind, ∀ c ∈ kind.name.toList, (c != '@') = true :=
    fun kind c hc => bne_iff_ne.mpr (kind.mem_name.2 c hc).2.1
  have hshown : ∀ chars (p : Path), (p.shown chars).head?.any Char.isDigit = false := by
    intro chars p
    unfold shown
    split <;> rfl
  -- from the left: blanks, then the name, then one number and the other
  obtain ⟨hdepth, h⟩ := Text.append_inj_of_class (p := (· == ' ')) h (by simp) (by simp)
    (hblank _ _) (hblank _ _)
  obtain ⟨hkind, h⟩ := Text.append_inj_of_class h (hname _) (hname _) rfl rfl
  obtain ⟨hstart, h⟩ := Text.append_inj_of_class (List.cons.inj h).2 isDigit_of_mem_digits
    isDigit_of_mem_digits rfl rfl
  obtain ⟨hstop, -⟩ := Text.append_inj_of_class (List.cons.inj (List.cons.inj h).2).2
    isDigit_of_mem_digits isDigit_of_mem_digits (hshown _ _) (hshown _ _)
  have hdepth : p.depth = q.depth := by
    have hlength := (List.replicate_inj.mp hdepth).1
    omega
  have hkind : p.node.kind = q.node.kind := Kind.name_injective (String.toList_inj.mp hkind)
  have hspan : p.node.span = q.node.span := by
    rw [show p.node.span = ⟨p.node.span.start, p.node.span.stop⟩ from rfl, digits_injective hstart,
      digits_injective hstop]
  rw [mark, mark, hdepth, hkind, hspan]

end Path

/-- What the lines of a listing tell about the nodes of a tree, in document order. -/
def marks (root : Node) : List (Nat × Kind × Span) := root.paths.map (·.mark)

/-- A listing tells what its lines tell. -/
theorem marks_eq_of_dump_eq {root root' : Node} {source source' : String}
    (h : root.dump source = root'.dump source') : root.marks = root'.marks := by
  have htext : ∀ (root : Node) (source : String), (root.dump source).toList =
      (root.paths.map (·.content source.toList)).flatMap (· ++ ['\n']) := by
    intro root source
    rw [dump, String.toList_join, List.flatMap_map, List.flatMap_map]
    exact List.flatMap_congr fun p _ => p.toList_line source.toList
  have hlines : root.paths.map (·.content source.toList) =
      root'.paths.map (·.content source'.toList) := by
    apply Text.lines_injective
    · simpa using fun p _ => p.newline_not_mem_content source.toList
    · simpa using fun p _ => p.newline_not_mem_content source'.toList
    · rw [← htext, h, htext]
  have hmarks : List.Forall₂ (fun p q : Path => p.mark = q.mark) root.paths root'.paths := by
    rw [← List.forall₂_eq_eq_eq, List.forall₂_map_left_iff, List.forall₂_map_right_iff] at hlines
    exact hlines.imp fun p q => Path.mark_eq_of_content_eq
  rwa [marks, marks, ← List.forall₂_eq_eq_eq, List.forall₂_map_left_iff,
    List.forall₂_map_right_iff]

/-! ## Trees from their marks -/

mutual

/-- The tree without its numbers. -/
def unnumbered : Node → Node
  | ⟨_, kind, span, children⟩ => ⟨0, kind, span, allUnnumbered children⟩

/-- The trees without their numbers. -/
def allUnnumbered : List Node → List Node
  | [] => []
  | n :: ns => n.unnumbered :: allUnnumbered ns

end

/-- The marks of neighbouring trees begin with that of the first one, followed by those of the trees
below it. -/
theorem map_mark_forestPaths_cons (above : List Node) (id : Nat) (kind : Kind) (span : Span)
    (children ns : List Node) :
    (forestPaths above (⟨id, kind, span, children⟩ :: ns)).map (·.mark) =
      (above.length, kind, span) ::
        ((forestPaths (⟨id, kind, span, children⟩ :: above) children).map (·.mark) ++
          (forestPaths above ns).map (·.mark)) := by
  rw [forestPaths, pathsBelow, List.map_append, List.map_cons]
  rfl

/-- Trees that hang at a depth, and marks behind them that are not as deep, begin at that depth at
most. -/
theorem depth_head?_forestPaths {depth : Nat} {above ns : List Node}
    {rest : List (Nat × Kind × Span)} (habove : above.length = depth)
    (hrest : ∀ m ∈ rest.head?, m.1 < depth) :
    ∀ m ∈ ((forestPaths above ns).map (·.mark) ++ rest).head?, m.1 < depth + 1 := by
  intro m hm
  cases ns with
  | nil => exact Nat.lt_succ_of_lt (hrest m hm)
  | cons n ns =>
      obtain ⟨id, kind, span, children⟩ := n
      rw [map_mark_forestPaths_cons, List.cons_append, List.head?_cons, Option.mem_some_iff] at hm
      rw [← hm, habove]
      exact Nat.lt_succ_self depth

/-- Marks of trees that hang at a depth, followed by marks that are not as deep, tell the trees and
what follows. -/
theorem allUnnumbered_of_marks_eq {depth : Nat} {above above' : List Node}
    (habove : above.length = depth) (habove' : above'.length = depth) :
    (ns ns' : List Node) → {rest rest' : List (Nat × Kind × Span)} →
      (∀ m ∈ rest.head?, m.1 < depth) → (∀ m ∈ rest'.head?, m.1 < depth) →
      (forestPaths above ns).map (·.mark) ++ rest =
        (forestPaths above' ns').map (·.mark) ++ rest' →
      allUnnumbered ns = allUnnumbered ns' ∧ rest = rest'
  | [], [], _, _, _, _, h => ⟨rfl, h⟩
  | [], ⟨_, kind, span, _⟩ :: _, rest, _, hrest, _, h => by
      rw [map_mark_forestPaths_cons, habove', forestPaths, List.map_nil, List.nil_append] at h
      exact absurd (hrest (depth, kind, span) (by rw [h]; rfl)) (Nat.lt_irrefl _)
  | ⟨_, kind, span, _⟩ :: _, [], _, rest', _, hrest', h => by
      rw [map_mark_forestPaths_cons, habove, forestPaths, List.map_nil, List.nil_append] at h
      exact absurd (hrest' (depth, kind, span) (by rw [← h]; rfl)) (Nat.lt_irrefl _)
  | ⟨_, _, _, children⟩ :: ns, ⟨_, _, _, children'⟩ :: ns', _, _, hrest, hrest', h => by
      rw [map_mark_forestPaths_cons, map_mark_forestPaths_cons, List.cons_append, List.cons_append,
        List.append_assoc, List.append_assoc, List.cons.injEq, Prod.mk.injEq, Prod.mk.injEq] at h
      obtain ⟨⟨-, rfl, rfl⟩, h⟩ := h
      -- what is below the first tree ends where the marks come back to its depth
      obtain ⟨hchildren, h⟩ := allUnnumbered_of_marks_eq (congrArg (· + 1) habove)
        (congrArg (· + 1) habove') children children' (depth_head?_forestPaths habove hrest)
        (depth_head?_forestPaths habove' hrest') h
      obtain ⟨hns, hrests⟩ := allUnnumbered_of_marks_eq habove habove' ns ns' hrest hrest' h
      refine ⟨?_, hrests⟩
      rw [allUnnumbered, allUnnumbered, unnumbered, unnumbered, hchildren, hns]

/-- The marks of the nodes in document order make up the tree. -/
theorem unnumbered_of_marks_eq {root root' : Node} (h : root.marks = root'.marks) :
    root.unnumbered = root'.unnumbered := by
  have hforest : ∀ root : Node, root.marks = (forestPaths [] [root]).map (·.mark) := by
    intro root
    rw [forestPaths, forestPaths, List.append_nil]
    rfl
  rw [hforest, hforest] at h
  obtain ⟨hroots, -⟩ := @allUnnumbered_of_marks_eq 0 [] [] rfl rfl [root] [root'] [] []
    (by simp) (by simp) (by rw [List.append_nil, List.append_nil, h])
  exact (List.cons.inj hroots).1

/-- **A listing determines its tree.** Trees with equal listings, be it about different sources,
have in document order nodes of the same depths, kinds and spans, and so are the same tree up to the
numbers of its nodes. -/
theorem dump_determines_tree {root root' : Node} {source source' : String}
    (h : root.dump source = root'.dump source') :
    root.marks = root'.marks ∧ root.unnumbered = root'.unnumbered :=
  have hmarks := marks_eq_of_dump_eq h
  ⟨hmarks, unnumbered_of_marks_eq hmarks⟩

/-- A node that was opened first and one that was put around another later have different numbers,
which no listing shows. -/
theorem dump_entered_eq_wrapped :
    let entered := ((Builder.start 3).run
      [.enter .typedExpr 0, .leaf .variable ⟨0, 2⟩, .leave 2]).finish
    let wrapped := ((Builder.start 3).run
      [.leaf .variable ⟨0, 2⟩, .wrap .typedExpr, .leave 2]).finish
    entered.dump "$a " = wrapped.dump "$ab" ∧
      entered.preorder.map (·.id) ≠ wrapped.preorder.map (·.id) ∧
      entered.marks = wrapped.marks ∧ entered.unnumbered = wrapped.unnumbered := by
  intro entered wrapped
  have hdump : entered.dump "$a " = wrapped.dump "$ab" := by decide
  exact ⟨hdump, by decide, dump_determines_tree hdump⟩

end Node

end GolfAssist
