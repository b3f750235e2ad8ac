import GolfAssist.Text.Class

/-!
# Type declarations for editors

An editor written in TypeScript needs the types of what it is sent.

* `Editor.Declaration` — a declaration: a record of fields, or a choice between names.
* `Editor.Declaration.render` — its text.
* `Editor.exported` — a declaration made visible to other modules.
* `Editor.declarations`, `Editor.declarationFile` — the declarations of all that is sent, and the
  file that has them.
-/

namespace GolfAssist.Editor

/-! ## Declarations -/

/-- A field of a record. -/
structure Field where
  /-- Its name. -/
  name : String
  /-- The type of its values. -/
  type : String
  /-- It may be left out. -/
  optional : Bool := false
  /-- What is said about it in the declaration. -/
  comment : Option String := none
deriving DecidableEq, Repr

/-- What a declared type is. -/
inductive Shape where
  | record (fields : List Field)
  | choice (names : List String)
deriving DecidableEq, Repr

/-- A name for a type. -/
structure Declaration where
  /-- The name. -/
  name : String
  /-- The type. -/
  shape : Shape
deriving DecidableEq, Repr

/-- The text of a field, its comment on lines of its own. -/
def Field.render (f : Field) : String :=
  (f.comment.elim "" fun comment => "\n/**\n * " ++ comment ++ "\n */\n")
    ++ f.name ++ (if f.optional then "?" else "") ++ ": " ++ f.type ++ ", "

/-- The text of a type. -/
def Shape.render : Shape → String
  | .record fields => "\x7b " ++ String.join (fields.map (·.render)) ++ "\x7d"
  | .choice names => " | ".intercalate (names.map fun name => "\"" ++ name ++ "\"")

/-- The text of a declaration. -/
def Declaration.render (d : Declaration) : String :=
  "type " ++ d.name ++ " = " ++ d.shape.render ++ ";"

/-- The declaration with the word `export` in front, behind its leading blanks. Text that is
exported already, or that declares nothing, stays as it is. -/
def exported (declaration : String) : String :=
  let chars := declaration.toList
  let body := Text.trimLeft chars
  let begins (word : String) : Bool := word.toList.isPrefixOf body
  if begins "export " then declaration
  else if begins "type " || begins "interface " then
    String.ofList (chars.takeWhile Text.isBlank ++ "export ".toList ++ body)
  else declaration

/-! ## What is sent -/

/-- The declarations of all that an editor is sent. -/
def declarations : List Declaration :=
  [⟨"Span", .record [⟨"start", "number", false, none⟩, ⟨"end", "number", false, none⟩]⟩,
    ⟨"SpanView", .record [⟨"range", "Span", false, none⟩, ⟨"line", "number", false, none⟩,
      ⟨"col", "number", false, none⟩]⟩,
    ⟨"CompletionContext", .choice ["VariableReference", "TypePosition", "General"]⟩,
    ⟨"CompletionItemKind", .choice ["type", "keyword", "variable"]⟩,
    ⟨"CompletionItem", .record [⟨"label", "string", false, none⟩,
      ⟨"kind", "CompletionItemKind", false, none⟩, ⟨"boost", "number", true, none⟩]⟩,
    ⟨"CompletionResult", .record [⟨"context", "CompletionContext", false, none⟩,
      ⟨"anchor", "number", false,
        some "UTF-16 offset where accepted labels start replacing text."⟩,
      ⟨"items", "Array<CompletionItem>", false, none⟩]⟩,
    ⟨"Highlight", .record [⟨"range", "Span", false, none⟩, ⟨"tag", "string", false, none⟩]⟩,
    ⟨"DiagnosticKind", .choice ["error"]⟩,
    ⟨"Diagnostic", .record [⟨"kind", "DiagnosticKind", false, none⟩,
      ⟨"message", "string", false, none⟩, ⟨"span", "SpanView", false, none⟩]⟩,
    ⟨"CommentTokens", .record [⟨"line", "string", false, none⟩]⟩,
    ⟨"LanguageData", .record [⟨"comment_tokens", "CommentTokens", false, none⟩,
      ⟨"opcodes", "Array<string>", false, none⟩, ⟨"special_exprs", "Array<string>", false, none⟩,
      ⟨"opaliases", "Array<string>", false, none⟩,
      ⟨"nullary_types", "Array<string>", false, none⟩,
      ⟨"constructor_types", "Array<string>", false, none⟩]⟩]

/-- The lines at the top of the file of declarations. -/
def banner : String :=
  "/* eslint-disable */\n/* prettier-ignore */\n"
    ++ "// AUTO-GENERATED: `cargo run -p ide_wasm --bin export_ts`\n\n"

/-- The text with a line feed at its end, if it has none. -/
def endLine (text : String) : String :=
  if text.toList.getLast? = some '\n' then text else text ++ "\n"

/-- The file of declarations: each one exported and followed by an empty line. -/
def declarationFile : String :=
  banner ++ String.join (declarations.map fun d => endLine (exported d.render) ++ "\n")

end GolfAssist.Editor
