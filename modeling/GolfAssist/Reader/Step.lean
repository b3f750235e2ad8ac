import GolfAssist.Reader

/-!
# Reading a program token by token

* `Reader.step` — what one token does to the state of reading.
* `Reader.read` — all tokens of a list, one after the other.

A program is a sequence of expressions; an expression is an atom, a list in parentheses or
alternatives in braces, and may be followed by a colon and a type. Reading goes on whatever comes:

* an open list that meets a token which can only belong further out is closed in front of that
  token (`Reader.unwind`);
* a closer or a separator with nothing to close or separate becomes an error leaf;
* a type that does not come leaves its expression without one.
-/

namespace GolfAssist

/-- What a word stands for where a value is read. -/
def Node.Kind.ofWord (word : String) : Node.Kind :=
  if Lexicon.isAliasWord word then .opalias
  else if Lexicon.isConstant word then .nullary
  else .builtin

/-- The kind of the leaf that a token makes where a value is read. -/
def Token.leafKind (t : Token) : Node.Kind :=
  match t.kind with
  | .variable => .variable
  | .integer => .integer
  | .string => .string
  | .word => .ofWord t.text
  | .op => .opalias
  | .openParen => .openParen
  | .closeParen => .closeParen
  | .openBrace => .openBrace
  | .closeBrace => .closeBrace
  | .colon => .colon
  | .slash => .slash
  | .semicolon => .semicolon
  | .lineComment => .lineComment
  | .unknown | .eof => .error

/-- The dots between the bounds of a range. -/
def Token.isDots (t : Token) : Bool := t.kind = .op && t.text = ".."

/-- A type can begin with a token of this sort. -/
def Token.Kind.startsType (kind : Token.Kind) : Bool :=
  kind = .word || kind = .openParen || kind = .integer

/-- What an open node still wants when a token that belongs further out ends it; nothing if the
node can stay open. -/
def Node.Kind.brokenBy (region : Node.Kind) (kind : Token.Kind) : Option Wanted :=
  match region, kind with
  | .sexpr, .eof | .sexpr, .closeBrace => some .closeParen
  | .variants, .eof | .variants, .closeParen => some .closeBrace
  | .typeSexpr, .eof | .typeSexpr, .closeBrace | .typeSexpr, .slash | .typeSexpr, .semicolon =>
    some .closeParen
  | _, _ => none

namespace Reader

/-! ## Ends of values and types -/

/-- A type is complete or will not come; an expression that was waiting for it is closed. -/
def endType (r : Reader) : Reader :=
  let r := { r with expects := .item }
  if r.region = .typedExpr then r.leave else r

/-- A value is complete. If a colon follows, the value is wrapped to receive its type. -/
def endValue (r : Reader) (next : Token) : Reader :=
  if next.kind = .colon then
    match r.builder.wrap? .typedExpr with
    | some builder => { r with builder, expects := .colon }
    | none => r
  else r

/-- A type has to follow; if the next token cannot begin one, that is reported at it. -/
def awaitType (r : Reader) (next : Token) : Reader :=
  if next.kind.startsType then { r with expects := .type }
  else (r.report next (.missingBefore .type next)).endType

/-! ## Unclosed lists -/

/-- The open node is closed in front of the token, without what it still wants. -/
def breakOff (r : Reader) (wanted : Wanted) (t : Token) : Reader :=
  let inType := r.region = .typeSexpr
  let r := (r.attach.report t (.missingBefore wanted t)).leaveAt t.start
  if inType then r.endType else r

/-- At most `depth` open nodes are closed in front of the token, as long as it belongs outside of
the innermost one. -/
def unwind : (depth : Nat) → Reader → Token → Reader
  | 0, r, _ => r
  | depth + 1, r, t =>
    match r.region.brokenBy t.kind with
    | some wanted => unwind depth (r.breakOff wanted t) t
    | none => r

/-! ## Types -/

/-- The token begins a type. A lone integer is a type of its own; one that is followed by dots is
the lower bound of a range. -/
def beginType (r : Reader) (t next : Token) : Reader :=
  match t.kind with
  | .word => (r.shift .typeName t).endType
  | .openParen => { (r.enter .typeSexpr t).shift .openParen t with expects := .item }
  | .integer =>
    if next.isDots then { (r.enter .typeRange t).shift .integer t with expects := .dots }
    else (r.shift .integer t).endType
  | _ => r.reject t (.missingBefore .type t)

/-- The token is the dots of a range. -/
def rangeDots (r : Reader) (t next : Token) : Reader :=
  let r := r.shift .opalias t
  if next.kind = .integer then { r with expects := .bound }
  else (r.report next (.missingBefore .rangeBound next)).leave.endType

/-- The token is the upper bound of a range. -/
def rangeBound (r : Reader) (t : Token) : Reader := (r.shift .integer t).leave.endType

/-! ## Items -/

/-- The token begins an expression. -/
def beginExpr (r : Reader) (t next : Token) : Reader :=
  match t.kind with
  | .openParen => (r.enter .sexpr t).shift .openParen t
  | .openBrace => (r.enter .variants t).shift .openBrace t
  | .colon => (r.reject t .bareColon).awaitType next
  | _ => (r.shift t.leafKind t).endValue next

/-- The token closes the open node, which is a value. -/
def closeValue (r : Reader) (t next : Token) : Reader :=
  (r.shift t.leafKind t).leave.endValue next

/-- The token as an item of the innermost open node. -/
def item (r : Reader) (t next : Token) : Reader :=
  match r.region with
  | .typeSexpr =>
    if t.kind = .closeParen then (r.shift .closeParen t).leave.endType else r.beginType t next
  | .sexpr =>
    match t.kind with
    | .closeParen => r.closeValue t next
    | .slash => r.reject t .slashOutsideBraces
    | .semicolon => r.shift .semicolon t
    | _ => r.beginExpr t next
  | .variants =>
    match t.kind with
    | .closeBrace => r.closeValue t next
    | .slash => r.shift .slash t
    | .semicolon => r.shift .semicolon t
    | _ => r.beginExpr t next
  | _ =>
    match t.kind with
    | .eof => r.attach
    | .closeParen | .closeBrace | .slash => r.reject t (.stray t.text)
    | .semicolon => r.shift .semicolon t
    | _ => r.beginExpr t next

/-! ## Tokens -/

/-- The state after a token, when `next` is the next token that is no comment. -/
def step (r : Reader) (t next : Token) : Reader :=
  if t.isTrivia then r.hold t
  else
    match r.expects with
    | .item => (unwind r.builder.outer.length r t).item t next
    | .colon => (r.shift .colon t).awaitType next
    | .type => r.beginType t next
    | .dots => r.rangeDots t next
    | .bound => r.rangeBound t

/-- The first token of the list that is no comment, or else `last`. -/
def upcoming (last : Token) (tokens : List Token) : Token :=
  (tokens.find? (!·.isTrivia)).getD last

/-- The state after all tokens of the list, where `last` is the token that ends the source. -/
def read (last : Token) (r : Reader) : List Token → Reader
  | [] => r
  | t :: tokens => read last (r.step t (upcoming last tokens)) tokens

end Reader

end GolfAssist
