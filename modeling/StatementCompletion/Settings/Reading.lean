import StatementCompletion.Json.Reading
import StatementCompletion.Settings

/-!
# Reading settings

Settings are read from JSON.  A record is an object, in which unknown members are ignored and no
known one may occur twice, or an array of its fields in their order, of which the last ones may be
missing.  What is missing keeps its default.
-/

namespace StatementCompletion

namespace Json

/-! ## Records -/

/-- The names of the members that are known, with their values, unless a name is no text. -/
def knownMembers? (known : List String) : List (Option Text × Json) → Option (List (String × Json))
  | [] => some []
  | (none, _) :: _ => none
  | (some name, value) :: rest => do
    let others ← knownMembers? known rest
    match known.find? (·.toList = name) with
    | some field => pure ((field, value) :: others)
    | none => pure others

/-- Whether no name occurs twice. -/
def hasDistinctNames : List (String × Json) → Bool
  | [] => true
  | (name, _) :: rest => rest.all (·.1 ≠ name) && hasDistinctNames rest

/-- The fields of a record that are given, by name. -/
def fields? (names : List String) : Json → Option (List (String × Json))
  | .array items => if items.length ≤ names.length then some (names.zip items) else none
  | .object members =>
    (knownMembers? names members).filter hasDistinctNames
  | _ => none

/-- The value of a field, or its default if it is not given. -/
def field? {α : Type} (fields : List (String × Json)) (name : String) (read : Json → Option α)
    (default : α) : Option α :=
  match fields.lookup name with
  | some value => read value
  | none => some default

/-- A text, or null. -/
def nullableText? (value : Json) : Option (Option Text) :=
  if value.isNull then some none else value.text?.map some

end Json

/-! ## The records of the settings -/

/-- The code style that a value gives. -/
def CodeStyle.ofJson? (value : Json) : Option CodeStyle := do
  let fields ← value.fields?
    ["indent_size", "use_tab_character", "keep_simple_blocks_in_one_line", "keep_blank_lines"]
  let default : CodeStyle := {}
  let indentSize ← Json.field? fields "indent_size" Json.natural? default.indentSize
  let useTabs ← Json.field? fields "use_tab_character" Json.boolean? default.useTabs
  let keepSimpleBlocks ←
    Json.field? fields "keep_simple_blocks_in_one_line" Json.boolean? default.keepSimpleBlocks
  let keepBlankLines ← Json.field? fields "keep_blank_lines" Json.natural? default.keepBlankLines
  pure { indentSize, useTabs, keepSimpleBlocks, keepBlankLines }

/-- The comment tokens that a value gives. -/
def CommentStyle.ofJson? (value : Json) : Option CommentStyle := do
  let fields ← value.fields? ["line", "block_start", "block_end", "block_continuation"]
  let line ← Json.field? fields "line" Json.nullableText? none
  let blockStart ← Json.field? fields "block_start" Json.nullableText? none
  let blockEnd ← Json.field? fields "block_end" Json.nullableText? none
  let blockContinuation ← Json.field? fields "block_continuation" Json.nullableText? none
  pure { line, blockStart, blockEnd, blockContinuation }

/-- The word that names a sort of source. -/
def SourceKind.tag : SourceKind → String
  | .compilationUnit => "compilation_unit"
  | .codeFragment => "code_fragment"

/-- The sort of source that a text names. -/
def SourceKind.ofText? (text : Text) : Option SourceKind :=
  [SourceKind.compilationUnit, .codeFragment].find? (·.tag.toList = text)

/-- The sort of source that a value gives: its name, or an object with null under its name. -/
def SourceKind.ofJson? : Json → Option SourceKind
  | .string (some name) => ofText? name
  | .object [(some name, .null)] => ofText? name
  | _ => none

/-- The settings that a value gives. -/
def Settings.ofJson? (value : Json) : Option Settings := do
  let fields ← value.fields? ["style", "comments", "source_kind", "max_attempts"]
  let default : Settings := {}
  let style ← Json.field? fields "style" CodeStyle.ofJson? default.style
  let comments ← Json.field? fields "comments" CommentStyle.ofJson? default.comments
  let source ← Json.field? fields "source_kind" SourceKind.ofJson? default.source
  let maxPasses ← Json.field? fields "max_attempts" Json.natural? default.maxPasses
  pure { style, comments, source, maxPasses }

/-- The settings that a text gives. -/
def Settings.ofText? (text : Text) : Option Settings :=
  (Json.ofText? text).bind ofJson?

end StatementCompletion
