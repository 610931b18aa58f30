import BinaryLayout.Text.Lines

/-!
# Rows of a formatted text

A line of the result is kept as a row with columns until all lines are known, so that columns of
neighbouring rows can be aligned.  A block is a row with such columns and the rows that belong to
it: those that stand before it and those that follow it.
-/

namespace BinaryLayout.Format

inductive RowKind where
  | attribute
  | comment
  | dedentSpace
  | documentation
  | enumValue
  | field
  | fieldSeparator
  | condition
  | importLine
  | sectionBreak
  | topTypeSeparator
  | typeHeader
  | valueSeparator
  | virtualField
deriving DecidableEq

def RowKind.text : RowKind → String
  | .attribute => "attribute"
  | .comment => "comment"
  | .dedentSpace => "dedent-space"
  | .documentation => "doc"
  | .enumValue => "enum-value"
  | .field => "field"
  | .fieldSeparator => "field-separator"
  | .condition => "if"
  | .importLine => "import"
  | .sectionBreak => "section-break"
  | .topTypeSeparator => "top-type-separator"
  | .typeHeader => "type-header"
  | .valueSeparator => "value-separator"
  | .virtualField => "virtual-field"

/-- The columns of a kind with a single space after them; the others have two. -/
def RowKind.narrowColumns : RowKind → List Nat
  | .enumValue => [0, 1]
  | .field => [0]
  | _ => []

/-- A line that is not put together yet. -/
structure Row where
  kind : RowKind
  columns : List String := []
  indent : Nat := 0
deriving DecidableEq

/-- A row whose columns are aligned with those of others, and the rows that belong to it. -/
structure Block where
  /-- The rows before the header. -/
  lead : List Row := []
  header : Row
  body : List Row := []

namespace Row

def text (r : Row) : String :=
  String.join r.columns

def isBlank (r : Row) : Bool :=
  r.text.isEmpty

def indented (r : Row) : Row :=
  { r with indent := r.indent + 1 }

def render (indentWidth : Int) (r : Row) : String :=
  let spaces := List.replicate (indentWidth * r.indent).toNat ' '
  String.ofList (Text.trimRight (spaces ++ r.text.toList))

end Row

def Block.indented (b : Block) : Block :=
  ⟨b.lead.map Row.indented, b.header.indented, b.body.map Row.indented⟩

def intersperse (between : List Row) (sections : List (List Row)) : List Row :=
  between.intercalate (sections.filter (!·.isEmpty))

def Block.extraRows (b : Block) : Nat :=
  ((b.body ++ b.lead).filter (!·.columns.isEmpty)).length

/-- Whether there should be blank lines between blocks: there are at least as many rows inside all
but the last of them as there are blocks. -/
def needBlankLines (blocks : List Block) : Bool :=
  blocks.length ≤ (blocks.dropLast.map Block.extraRows).foldr (· + ·) 0

def columnWidth (indentWidth : Int) (indentColumn : Nat) (header : Row) (index : Nat) : Int :=
  ((header.columns.getD index "").length : Int) +
    (if index = indentColumn then header.indent * indentWidth else 0)

def widest (indentWidth : Int) (indentColumn : Nat) (blocks : List Block) (kind : RowKind)
    (index : Nat) : Int :=
  ((blocks.map (·.header)).filter fun h => h.kind = kind ∧ index < h.columns.length).foldl
    (fun widest h => max widest (columnWidth indentWidth indentColumn h index)) 0

/-- The columns of a header with spaces after each, so that those of other headers of its kind
are aligned with them.  A column that is empty in all of them takes up no room. -/
def alignedText (indentWidth : Int) (indentColumn : Nat) (blocks : List Block) (header : Row) :
    String :=
  let padded := header.columns.zipIdx.map fun (column, index) =>
    let width := widest indentWidth indentColumn blocks header.kind index
    if width = 0 then column
    else
      let own := if index = indentColumn then width - header.indent * indentWidth else width
      Text.padRight (own + (if header.kind.narrowColumns.contains index then 1 else 2)) column
  String.ofList (Text.trimRight (String.join padded).toList)

def alignColumns (indentWidth : Int) (indentColumn : Nat) (blocks : List Block) :
    List (List Row) :=
  blocks.map fun b =>
    b.lead ++ [{ b.header with
      columns := [alignedText indentWidth indentColumn blocks b.header] }] ++ b.body

def indentComments : List Row → List Row
  | [] => []
  | r :: rest =>
    let rest := indentComments rest
    if r.isBlank || r.kind = .comment then
      { r with indent := (rest.head?.map (·.indent)).getD 0 } :: rest
    else r :: rest

/-- The rows with a blank one before each that stands further to the left than the one before it,
unless there is one already. -/
def spaceDedents (previousIndent : Nat) (previousBlank : Bool) : List Row → List Row
  | [] => []
  | r :: rest =>
    let own := r :: spaceDedents r.indent r.isBlank rest
    if r.indent < previousIndent && !previousBlank && !r.isBlank then
      { kind := .dedentSpace, indent := r.indent } :: own
    else own

def renderRows (indentWidth : Int) (showKinds : Bool) (rows : List Row) : String :=
  let nameWidth := (rows.map (·.kind.text.length)).foldl max 0
  Text.joinLines (rows.map (fun r =>
    (if showKinds then Text.padRight nameWidth r.kind.text ++ "|" else "") ++
      r.render indentWidth) ++ [""])

end BinaryLayout.Format
