import GolfAssist.Completion.Config
import GolfAssist.Lexicon
import GolfAssist.Tree.Query

/-!
# Where the cursor stands

* `Completion.Context` — what can be typed at the cursor: a variable, a type, or anything else.
* `Completion.Classification` — the context, and the anchor from which on an accepted candidate
  replaces text.
* `Completion.classify` — the classification of a cursor, or none where nothing is offered.

The characters in front of the cursor decide first, and they are looked at from the cursor
backwards: the word that is being typed, then what stands before it. The tree is asked only whether
the cursor is inside a type.
-/

namespace GolfAssist.Completion

/-- What can be typed at the cursor. -/
inductive Context where
  /-- The name of a variable, directly behind its sigil. -/
  | variableReference
  /-- A type, behind a colon or inside another type. -/
  | typePosition
  /-- The head of an expression. -/
  | general
deriving DecidableEq, Repr

/-- A context, and the byte offset from which an accepted candidate replaces text up to the
cursor. -/
structure Classification where
  /-- What can be typed. -/
  context : Context
  /-- Where the replaced text starts. -/
  anchor : Nat
deriving DecidableEq, Repr

/-- The characters in front of the cursor that are looked at, the nearest first: those of the
cursor's line that fit into the given number of bytes. -/
def window : (lookbehind : Nat) → List Char → List Char
  | _, [] => []
  | lookbehind, c :: cs =>
    if c = '\n' ∨ lookbehind < c.utf8Size then []
    else c :: window (lookbehind - c.utf8Size) cs

/-- The list without one leading `c`, if it has one. -/
def dropOne (c : Char) : List Char → List Char
  | [] => []
  | x :: xs => if x = c then xs else x :: xs

/-- The classification of a cursor behind the characters `nearest`, the nearest first. It is
`explicit` if the user has asked for candidates and not only typed. -/
def classifyBehind (tree : Node) (cursor : Nat) (explicit : Bool) (nearest : List Char) :
    Option Classification :=
  let word := nearest.takeWhile Lexicon.isWordChar
  let before := nearest.dropWhile Lexicon.isWordChar
  let wordStart := cursor - Text.byteLength word
  let afterParen := before.head? = some '('
  if before.head? = some Lexicon.sigil then some ⟨.variableReference, wordStart - 1⟩
  else if (dropOne ' ' (dropOne '(' before)).head? = some ':' then
    some ⟨.typePosition, if afterParen then wordStart - 1 else wordStart⟩
  else
    let inType := (tree.resolve cursor .before).within .typeSexpr
    if inType then some ⟨.typePosition, wordStart⟩
    else if word ≠ [] ∨ afterParen ∨ explicit then some ⟨.general, wordStart⟩
    else none

/-- The classification of a cursor in a source with the given tree. The tree need not be the one
of the source. -/
def classify (source : String) (tree : Node) (cursor : Nat) (explicit : Bool) (config : Config) :
    Except RequestError (Option Classification) :=
  match Text.splitAt? cursor source.toList with
  | none => .error .invalidCursor
  | some (before, _) =>
    .ok (classifyBehind tree cursor explicit (window config.lookbehind before.reverse))

end GolfAssist.Completion
