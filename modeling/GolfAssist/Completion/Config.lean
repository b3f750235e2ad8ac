import GolfAssist.Text.Class

/-!
# Settings of completion

* `RequestError` — why a request gets no answer; `RequestError.message` puts it into words.
* `Completion.Config` — the settings, with their defaults.
* `Completion.Config.parse` — settings from the JSON text in which an editor hands them over.

A text of blanks stands for the defaults. Otherwise it is an object with the members that differ
from the defaults, or an array with the values of the members in order. As there is one setting,
this leaves four shapes, and a reader that takes just these is all of JSON that is needed. A
member that is not known, that comes twice or that has no natural number of 64 bits makes the text
invalid, and so does anything after the closing bracket.
-/

namespace GolfAssist

/-- A request that cannot be answered. That nothing is offered at a cursor is an answer. -/
inductive RequestError where
  /-- The cursor is past the end of the source or inside a character. -/
  | invalidCursor
  /-- The settings cannot be read. -/
  | invalidConfig
deriving DecidableEq, Repr

/-- The error in words. -/
def RequestError.message : RequestError → String
  | .invalidCursor => "Invalid cursor"
  | .invalidConfig => "Invalid completion config"

namespace Completion

/-- The settings of completion. -/
structure Config where
  /-- How many bytes in front of the cursor are looked at, at most. -/
  lookbehind : Nat := 250
deriving DecidableEq, Repr

namespace Config

/-- The settings nobody has changed. -/
def default : Config := {}

/-! ## The parts of the JSON text -/

/-- The blanks that may stand between the parts. -/
def isGap (c : Char) : Bool := c = ' ' || c = '\t' || c = '\n' || c = '\r'

/-- The text without the blanks at its front. -/
def skipGap (cs : List Char) : List Char := cs.dropWhile isGap

/-- The value of a hexadecimal digit. -/
def hexDigit? (c : Char) : Option Nat :=
  if c.isDigit then some (c.toNat - '0'.toNat)
  else if 'a' ≤ c ∧ c ≤ 'f' then some (c.toNat - 'a'.toNat + 10)
  else if 'A' ≤ c ∧ c ≤ 'F' then some (c.toNat - 'A'.toNat + 10)
  else none

/-- The character that four hexadecimal digits name. Half of a surrogate pair names none; no key
of the settings has a character that needs a pair. -/
def codePoint? (a b c d : Char) : Option Char := do
  let n := (((← hexDigit? a) * 16 + (← hexDigit? b)) * 16 + (← hexDigit? c)) * 16 + (← hexDigit? d)
  if h : n.isValidChar then some (Char.ofNatAux n h) else none

/-- The character that a backslash and the given letter stand for. -/
def escape? : Char → Option Char
  | '"' => some '"'
  | '\\' => some '\\'
  | '/' => some '/'
  | 'b' => some '\x08'
  | 'f' => some '\x0c'
  | 'n' => some '\n'
  | 'r' => some '\r'
  | 't' => some '\t'
  | _ => none

/-- What a key spells, read from behind its opening quote, and the text behind its closing
quote. -/
def key? : List Char → Option (List Char × List Char)
  | [] => none
  | '"' :: cs => some ([], cs)
  | '\\' :: 'u' :: a :: b :: c :: d :: cs => do
    let x ← codePoint? a b c d
    let (spelled, rest) ← key? cs
    some (x :: spelled, rest)
  | '\\' :: e :: cs => do
    let x ← escape? e
    let (spelled, rest) ← key? cs
    some (x :: spelled, rest)
  | x :: cs =>
    if x = '\\' ∨ x.toNat < 0x20 then none
    else do
      let (spelled, rest) ← key? cs
      some (x :: spelled, rest)

/-- The number that digits spell. -/
def ofDigits (digits : List Char) : Nat :=
  digits.foldl (fun n d => 10 * n + (d.toNat - '0'.toNat)) 0

/-- A natural number of at most 64 bits at the front of the text, written without leading zeros,
and the text behind it. -/
def number? (cs : List Char) : Option (Nat × List Char) :=
  let digits := cs.takeWhile Char.isDigit
  let n := ofDigits digits
  if digits ≠ [] ∧ (digits.head? = some '0' → digits = ['0']) ∧ n < UInt64.size then
    some (n, cs.dropWhile Char.isDigit)
  else none

/-! ## The settings -/

/-- A number that is followed by the closing bracket, and that by nothing. -/
def numberThen? (bracket : Char) (cs : List Char) : Option Config := do
  let (n, rest) ← number? (skipGap cs)
  if skipGap rest = [bracket] then some { lookbehind := n } else none

/-- The members of an object, read from behind its opening brace. -/
def object? (cs : List Char) : Option Config :=
  match skipGap cs with
  | ['\x7d'] => some default
  | '"' :: body => do
    let (spelled, rest) ← key? body
    match skipGap rest with
    | ':' :: value => if spelled = "lookbehind".toList then numberThen? '\x7d' value else none
    | _ => none
  | _ => none

/-- The elements of an array, read from behind its opening bracket. -/
def array? (cs : List Char) : Option Config :=
  if skipGap cs = [']'] then some default else numberThen? ']' cs

/-- The settings that a text gives, blanks at its ends apart. -/
def parse? (text : String) : Option Config :=
  match Text.trim text.toList with
  | [] => some default
  | '\x7b' :: cs => object? cs
  | '[' :: cs => array? cs
  | _ => none

/-- The settings that a text gives, or the error that it gives none. -/
def parse (text : String) : Except RequestError Config :=
  (parse? text).elim (.error .invalidConfig) .ok

end Config

end Completion

end GolfAssist
