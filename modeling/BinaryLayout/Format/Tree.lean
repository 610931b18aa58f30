import BinaryLayout.Format.Row
import BinaryLayout.LR.Transform

/-!
# Formatting a parse tree

The formatted text of a module is made from its parse tree, from the bottom up.  A part of a line
becomes a text, full lines become rows, and fields and values of enumerations become blocks, which
are aligned when all of those in a body are known.
-/

namespace BinaryLayout.Format

/-- How a text is formatted. -/
structure Config where
  /-- The number of spaces for a level of indentation. -/
  indentWidth : Int := 2
  /-- Whether the kind of each line stands before it. -/
  showLineTypes : Bool := false

/-- What a part of a parse tree becomes. -/
inductive Part where
  | text (s : String)
  | rows (rows : List Row)
  | blocks (blocks : List Block)
  /-- The rows of several types. -/
  | sections (sections : List (List Row))
  /-- Where a field begins, and how long it is. -/
  | place (start size : String)
  /-- The rows at the start of an inline type, and its fields. -/
  | inlineBody (rows : List Row) (blocks : List Block)

namespace Part

def toText : Part → String
  | .text s => s
  | _ => ""

def toRows : Part → List Row
  | .rows r => r
  | _ => []

def toBlocks : Part → List Block
  | .blocks b => b
  | _ => []

def toSections : Part → List (List Row)
  | .sections s => s
  | _ => []

def toPlace : Part → String × String
  | .place start size => (start, size)
  | _ => ("", "")

end Part

def joinWith (between : String) (texts : List String) : String :=
  String.intercalate between (texts.filter (!·.isEmpty))

/-- Comment lines without the blank ones at the start and the end. -/
def stripBlankRows (rows : List Row) : List Row :=
  let isEmpty (r : Row) : Bool := r.columns.isEmpty
  ((rows.dropWhile isEmpty).reverse.dropWhile isEmpty).reverse

def row (kind : RowKind) (text : String) : Row :=
  { kind := kind, columns := [text] }

def block (kind : RowKind) (columns : List String) (body : List Row) : Part :=
  .blocks [{ header := { kind := kind, columns := columns }, body := body }]

def structureRows (c : Config) (documentation attributes : List Row) (types : List (List Row))
    (fields : List Block) : List Row :=
  let between := if needBlankLines fields then [{ kind := .fieldSeparator }] else []
  (intersperse between
    ([documentation, attributes] ++ types ++ alignColumns c.indentWidth 1 fields)).map Row.indented

def enumRows (c : Config) (documentation attributes : List Row) (values : List Block) : List Row :=
  let between := if needBlankLines values then [{ kind := .valueSeparator }] else []
  (intersperse between
    ([documentation, attributes] ++ alignColumns c.indentWidth 0 values)).map Row.indented

/-- Fields under a condition: the condition stands before the first of them. -/
def conditionalBlocks (condition : Row) (comments : List Row) (fields : List Block) :
    List Block :=
  match fields.map Block.indented with
  | [] => []
  | first :: rest => { first with lead := condition :: comments ++ first.lead } :: rest

/-- The rows of a module: its sections with a blank line between them, its types with two. -/
def moduleRows (comments documentation imports attributes : List Row)
    (types : List (List Row)) : List Row :=
  let head := intersperse [{ kind := .sectionBreak }]
    [stripBlankRows comments, documentation, imports, attributes]
  let rows := intersperse [{ kind := .topTypeSeparator }, { kind := .topTypeSeparator }]
    (head :: types)
  spaceDedents 0 true (indentComments rows)

def emptyPart (lhs : String) : Part :=
  if ["attribute-line*", "comment-line*", "doc-line*", "import-line*", "enum-value-body?",
      "field-body?"].contains lhs then .rows []
  else if ["anonymous-bits-field-block", "bits-field-block", "struct-field-block", "enum-value*",
      "unconditional-anonymous-bits-field*", "unconditional-bits-field*",
      "unconditional-struct-field*"].contains lhs then .blocks []
  else if lhs = "type-definition*" then .sections []
  else .text ""

def linePart (lhs : String) (parts : List Part) : Part :=
  let texts := parts.map Part.toText
  if ["equality-expression-right", "less-expression-right", "greater-expression-right",
      "or-expression-right", "and-expression-right"].contains lhs then
    .text (String.join ((texts.filter (!·.isEmpty)).map (" " ++ ·)))
  else if ["attribute*", "comma-then-expression", "choice-expression",
      "parameter-definition-list-tail"].contains lhs ||
      (lhs = "comparison-expression" && parts.length = 3) then
    .text (joinWith " " texts)
  else .text (String.join texts)

/-- What a node of a parse tree becomes, given what its children have become. -/
def format (c : Config) (lhs : String) (parts : List Part) : Part :=
  match lhs, parts with
  | lhs, [] => emptyPart lhs
  | _, [part] => part
  | "module", [comments, documentation, imports, attributes, types] =>
    .text (renderRows c.indentWidth c.showLineTypes
      (moduleRows comments.toRows documentation.toRows imports.toRows attributes.toRows
        types.toSections))
  | "doc-line", [documentation, _, eol] =>
    .rows (row .documentation documentation.toText :: eol.toRows)
  | "import-line", [keyword, file, as, name, comment, eol] =>
    .rows (row .importLine (keyword.toText ++ " " ++ file.toText ++ " " ++ as.toText ++ " " ++
      name.toText ++ "  " ++ comment.toText) :: eol.toRows)
  | "attribute-line", [setting, comment, eol] =>
    .rows (row .attribute (setting.toText ++ "  " ++ comment.toText) :: eol.toRows)
  | "attribute", [opening, context, default, name, colon, value, closing] =>
    .text (opening.toText ++
      joinWith " " [context.toText, default.toText, name.toText ++ colon.toText, value.toText] ++
      closing.toText)
  | "parameter-definition", [name, colon, type] =>
    .text (name.toText ++ colon.toText ++ " " ++ type.toText)
  | "type-definition*", [first, rest] => .sections (first.toRows :: rest.toSections)
  | "bits", [keyword, name, parameters, colon, comment, eol, body]
  | "struct", [keyword, name, parameters, colon, comment, eol, body] =>
    .rows (row .typeHeader (keyword.toText ++ " " ++ name.toText ++ parameters.toText ++
      colon.toText ++ "  " ++ comment.toText) :: eol.toRows ++ body.toRows)
  | "enum", [keyword, name, colon, comment, eol, body]
  | "external", [keyword, name, colon, comment, eol, body] =>
    .rows (row .typeHeader (keyword.toText ++ " " ++ name.toText ++ colon.toText ++ "  " ++
      comment.toText) :: eol.toRows ++ body.toRows)
  | "bits-body", [_, documentation, attributes, types, fields, _]
  | "struct-body", [_, documentation, attributes, types, fields, _] =>
    .rows (structureRows c documentation.toRows attributes.toRows types.toSections fields.toBlocks)
  | "field-location", [start, opening, plus, size, closing] =>
    .place start.toText (opening.toText ++ plus.toText ++ size.toText ++ closing.toText)
  | "virtual-field", [keyword, name, equals, value, comment, eol, body] =>
    block .virtualField
      [joinWith "  " [joinWith " " [keyword.toText, name.toText, equals.toText, value.toText],
        comment.toText]]
      (eol.toRows ++ body.toRows)
  | "field", [place, type, name, abbreviation, attributes, documentation, comment, eol, body] =>
    let (start, size) := place.toPlace
    block .field
      [start, size, type.toText, joinWith " " [name.toText, abbreviation.toText],
        attributes.toText, documentation.toText, comment.toText]
      (eol.toRows ++ body.toRows)
  | "field-body", [_, documentation, attributes, _]
  | "enum-value-body", [_, documentation, attributes, _] =>
    .rows ((documentation.toRows ++ attributes.toRows).map Row.indented)
  | "anonymous-bits-field-definition", [place, keyword, colon, comment, eol, body] =>
    let (start, size) := place.toPlace
    let columns := [start, size ++ "  " ++ keyword.toText ++ colon.toText, "", "", "", "",
      comment.toText]
    match body with
    | .inlineBody rows blocks =>
      .blocks ({ header := { kind := .field, columns := columns }, body := eol.toRows ++ rows } ::
        blocks)
    | _ => block .field columns eol.toRows
  | "inline-enum-field-definition",
      [place, keyword, name, abbreviation, colon, comment, eol, body]
  | "inline-struct-field-definition",
      [place, keyword, name, abbreviation, colon, comment, eol, body]
  | "inline-bits-field-definition",
      [place, keyword, name, abbreviation, colon, comment, eol, body] =>
    let (start, size) := place.toPlace
    block .field
      [start, size, keyword.toText,
        joinWith " " [name.toText, abbreviation.toText] ++ colon.toText, "", "", comment.toText]
      (eol.toRows ++ body.toRows)
  | "conditional-struct-field-block", [keyword, condition, colon, comment, eol, _, fields, _]
  | "conditional-bits-field-block", [keyword, condition, colon, comment, eol, _, fields, _]
  | "conditional-anonymous-bits-field-block",
      [keyword, condition, colon, comment, eol, _, fields, _] =>
    let header := row .condition (keyword.toText ++ " " ++ condition.toText ++ colon.toText ++
      "  " ++ comment.toText)
    .blocks (conditionalBlocks header eol.toRows fields.toBlocks)
  | "anonymous-bits-body", [_, attributes, fields, _] =>
    .inlineBody (attributes.toRows.map Row.indented) (fields.toBlocks.map Block.indented)
  | "enum-body", [_, documentation, attributes, values, _] =>
    .rows (enumRows c documentation.toRows attributes.toRows values.toBlocks)
  | "enum-value", [name, equals, value, attributes, documentation, comment, eol, body] =>
    block .enumValue
      [name.toText, equals.toText, value.toText, attributes.toText, documentation.toText,
        comment.toText]
      (eol.toRows ++ body.toRows)
  | "external-body", [_, documentation, attributes, _] =>
    .rows ((intersperse [{ kind := .sectionBreak }]
      [documentation.toRows, attributes.toRows]).map Row.indented)
  | "comment-line", [comment, _] =>
    let text := comment.toText
    .rows [{ kind := .comment, columns := if text.isEmpty then [] else [text] }]
  | "eol", [_, comments] => .rows (stripBlankRows comments.toRows)
  | _, [.rows first, .rows rest] => .rows (first ++ rest)
  | _, [.blocks first, .blocks rest] => .blocks (first ++ rest)
  | lhs, parts => linePart lhs parts

def formatHandlers (c : Config) : LR.Handlers Checked Part where
  token t := pure (.text t.text)
  production p _ parts := pure (format c p.lhs parts)

def formatTree (c : Config) (tree : LR.Tree) : String :=
  match tree.transform (formatHandlers c) [] with
  | .ok (part, _) => part.toText
  | .error _ => ""

end BinaryLayout.Format
