import BinaryLayout.Failure
import BinaryLayout.Text.Keyword
import BinaryLayout.Text.Lines
import BinaryLayout.Text.Quoted
import BinaryLayout.Text.WordChar

/-!
# Templates

A template is a text with placeholders, `$name` or `$` and a name in braces; `$$` stands for a
dollar sign.  A file of templates has a line with the name of each between pairs of asterisks, for
instance `// ** name ** //`, and then its text.  Lines that begin with `//` are comments.
-/

namespace BinaryLayout

/-- A text with placeholders. -/
structure Template where
  name : String
  text : String
deriving DecidableEq

/-- Why a template could not be filled in. -/
inductive FillError where
  /-- No value is given for a placeholder. -/
  | missing (name : String)
  /-- A dollar sign does not begin a placeholder.  The place is that after it. -/
  | badPlaceholder (line column : Nat)
deriving DecidableEq

def FillError.message : FillError → String
  | .missing name => Text.quoted name
  | .badPlaceholder line column =>
    "Invalid placeholder in string: line " ++ Text.decimal line ++ ", col " ++ Text.decimal column

namespace Template

/-- The name in a line that begins a template: the only word of the line, with a pair of asterisks
and a space on each side of it. -/
def nameIn? (line : List Char) : Option String :=
  let before := line.takeWhile (!Text.isWordChar ·)
  let rest := line.dropWhile (!Text.isWordChar ·)
  let name := rest.takeWhile Text.isWordChar
  let after := rest.dropWhile Text.isWordChar
  let isName := name.head?.any Char.isAlpha && name.all fun c => c.isAlphanum || c == '_'
  if isName && [' ', '*', '*'].isPrefixOf before.reverse && [' ', '*', '*'].isPrefixOf after &&
      after.all (!Text.isWordChar ·) then
    some (String.ofList name)
  else none

def isComment (line : List Char) : Bool :=
  ['/', '/'].isPrefixOf (Text.trimLeft line)

/-- Add a template to a list; a later one with the same name takes the place of an earlier one. -/
def put (t : Template) : List Template → List Template
  | [] => [t]
  | u :: rest => if u.name = t.name then t :: rest else u :: put t rest

def readLines (found : List Template) (current : Option String) (body : List String) :
    List String → List Template
  | [] => finished
  | line :: rest =>
    match nameIn? line.toList with
    | some name => readLines finished (some name) [] rest
    | none =>
      if isComment line.toList then readLines found current body rest
      else readLines found current (line :: body) rest
where
  /-- The templates with the current one. -/
  finished : List Template :=
    match current with
    | some name => put ⟨name, Text.joinLines body.reverse⟩ found
    | none => found

def readAll (text : String) : Checked (List Template) :=
  let templates := readLines [] none [] (Text.lines text)
  if templates.any fun t => Text.scriptKeywords.contains t.name then .error .malformed
  else .ok templates

/-- A character that a placeholder can begin with. -/
def isNameStart (c : Char) : Bool :=
  c.isAlpha || c == '_'

/-- A character that a placeholder can go on with. -/
def isNameChar (c : Char) : Bool :=
  c.isAlphanum || c == '_'

/-- A placeholder after a dollar sign: its name, and the number of characters that it takes up. -/
def placeholder? : List Char → Option (String × Nat)
  | '{' :: rest =>
    let name := rest.takeWhile isNameChar
    match rest.drop name.length with
    | '}' :: _ =>
      if name.head?.any isNameStart then some (String.ofList name, name.length + 2) else none
    | _ => none
  | rest =>
    let name := rest.takeWhile isNameChar
    if name.head?.any isNameStart then some (String.ofList name, name.length) else none

def placeAfter (before : List Char) : Nat × Nat :=
  let lines := Text.linesWithEnds before.reverse
  match lines.getLast? with
  | none => (1, 1)
  | some last => (lines.length, last.length)

/-- Fill in the placeholders of a text, given what stands before it, in reverse, and the number of
characters to pass over. -/
def fillFrom (values : List (String × String)) (before : List Char) : Nat → List Char →
    Except FillError String
  | _, [] => .ok ""
  | skip + 1, c :: rest => fillFrom values (c :: before) skip rest
  | 0, '$' :: rest =>
    match rest with
    | '$' :: _ => do return "$" ++ (← fillFrom values ('$' :: before) 1 rest)
    | _ =>
      match placeholder? rest with
      | none =>
        let (line, column) := placeAfter ('$' :: before)
        .error (.badPlaceholder line column)
      | some (name, length) =>
        match values.lookup name with
        | none => .error (.missing name)
        | some value => do return value ++ (← fillFrom values ('$' :: before) length rest)
  | 0, c :: rest => do return String.singleton c ++ (← fillFrom values (c :: before) 0 rest)

def fill (t : Template) (values : List (String × String)) : Except FillError String :=
  fillFrom values [] 0 t.text.toList

end Template

end BinaryLayout
