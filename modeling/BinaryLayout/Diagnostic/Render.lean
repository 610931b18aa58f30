import BinaryLayout.Diagnostic.Basic
import BinaryLayout.LR.Parser
import BinaryLayout.Text.Quoted

/-!
# Rendering diagnostics

A message is shown with its file and position, every further line of its text as a note, and the
line of source that it is about, with carets below it.
-/

namespace BinaryLayout

/-- The ways in which a piece of a message is set off on a terminal. -/
inductive Emphasis where
  | bold
  | red
  | yellow
  | green
  | plain
deriving DecidableEq

namespace Emphasis

def code : Emphasis → String
  | .bold => "\x1b[0;1m"
  | .red => "\x1b[0;1;31m"
  | .yellow => "\x1b[0;1;33m"
  | .green => "\x1b[0;1;32m"
  | .plain => "\x1b[0;37m"

/-- The escape that turns every emphasis off. -/
def reset : String := "\x1b[0m"

end Emphasis

namespace Severity

def nameEmphasis : Severity → Emphasis
  | .error => .red
  | .warning => .yellow
  | .note => .plain

def textEmphasis : Severity → Emphasis
  | .note => .plain
  | _ => .bold

end Severity

abbrev Sources := List (String × String)

/-- The line with a number counted from one; line zero is the last line. -/
def sourceLine (lines : List String) (number : Nat) : Checked String :=
  match number with
  | 0 => Failure.lastOf lines
  | n + 1 => Failure.element lines n

namespace Origin

def shown : Origin → String
  | .file name => if name.isEmpty then "[prelude]" else name
  | .reference _ shown => shown

/-- The source text of an origin, if it is at hand; a reference cannot be looked up. -/
def source? (sources : Sources) : Origin → Checked (Option String)
  | .file name => .ok (sources.lookup name)
  | .reference _ _ => .error .illTyped

end Origin

namespace Message

/-- The line of source that a message is about; empty if there is none to show. -/
def snippet (m : Message) (sources : Sources) : Checked String := do
  if m.location.isSynthetic then return ""
  match ← m.origin.source? sources with
  | none => return ""
  | some text => sourceLine (Text.lines text) m.location.start.line

/-- The lines of a message's text, each with its heading; all but the last end with a line break,
and the last one too if a snippet follows. -/
def headed (heading : String) (withSnippet : Bool) (severity : Severity) :
    List String → List (Emphasis × String)
  | [] => []
  | line :: rest =>
    let ended := if rest.isEmpty && !withSnippet then line else line ++ "\n"
    [(.bold, heading), (severity.nameEmphasis, severity.text ++ ": "),
      (severity.textEmphasis, ended)] ++ headed heading withSnippet .note rest

def carets (l : Location) : String :=
  let count := if l.start.line = l.stop.line then max 1 (l.stop.column - l.start.column) else 1
  String.ofList (List.replicate (l.start.column - 1) ' ' ++ List.replicate count '^')

def pieces (m : Message) (sources : Sources) : Checked (List (Emphasis × String)) := do
  let position := if m.location.isSynthetic then "[compiler bug]" else m.location.start.text
  let snippet ← m.snippet sources
  let heading := m.origin.shown ++ ":" ++ position ++ ": "
  let text := headed heading (!snippet.isEmpty) m.severity (Text.lines m.text)
  if snippet.isEmpty then return text
  return text ++ [(.plain, snippet ++ "\n"), (.green, carets m.location)]

def render (m : Message) (sources : Sources) (color : Bool) : Checked String := do
  let pieces ← m.pieces sources
  let shown := pieces.map fun (emphasis, text) =>
    if color then emphasis.code ++ text ++ Emphasis.reset else text
  return String.join shown

end Message

/-- Groups of messages as text.  A group without messages is an error of whoever made it. -/
def renderGroups (groups : List MessageGroup) (sources : Sources) (color : Bool) :
    Checked String := do
  let rendered ← groups.mapM fun group => do
    Failure.ensure (!group.isEmpty)
    group.mapM fun m => m.render sources color
  return String.intercalate "\n" rendered.flatten

/-- The message about a rejected input.  There is none about the end of the input, which stands
nowhere in the text. -/
def syntaxError (file : String) (e : LR.ParseError) : Checked Message :=
  match e.found with
  | some (.token t) =>
    let code := match e.code with
      | some code => if code.isEmpty then "Syntax error" else code
      | none => "Syntax error"
    .ok <| .error file t.location <|
      code ++ "\nFound " ++ Text.quoted t.text ++ " (" ++ t.symbol ++ "), expected " ++
        String.intercalate ", " e.expected ++ "."
  | _ => .error .unset

end BinaryLayout
