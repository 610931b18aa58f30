import BinaryLayout.CommandLine.Options

/-!
# The description of a command

How a command is called, what it does, and what its operands and switches mean, in lines of
limited length.
-/

namespace BinaryLayout.CommandLine

def helpWidth : Nat := 78

def helpColumn : Nat := 24

def spaces (n : Nat) : String :=
  String.ofList (List.replicate n ' ')

/-- A piece of a text that stays on one line, and whether a space stands before it. -/
abbrev Chunk := Bool × String

/-- The pieces of a word, which can be broken after a hyphen between letters. -/
def wordChunks (word : List Char) : List (List Char) :=
  match Text.cutAt '-' word with
  | (head, tail) =>
    if word.contains '-' && 2 ≤ head.length && 2 ≤ tail.length &&
        head.all Char.isAlpha && (tail.take 2).all Char.isAlpha then
      [head ++ ['-'], tail]
    else [word]

def chunks (text : String) : List Chunk :=
  (Text.wordsFrom [] text.toList).flatMap fun word =>
    (wordChunks word).zipIdx.map fun (piece, i) => (i == 0, String.ofList piece)

/-- Lines of pieces, each as long as can be within a width. -/
def fillFrom (width : Nat) (line : String) : List Chunk → List String
  | [] => if line.isEmpty then [] else [line]
  | (spaced, piece) :: rest =>
    let extended := if line.isEmpty then piece else line ++ (if spaced then " " else "") ++ piece
    if extended.length ≤ width || line.isEmpty then fillFrom width extended rest
    else line :: fillFrom width piece rest

def fill (width : Nat) (text : String) : List String :=
  fillFrom width "" (chunks text)

namespace Switch

def placeholder (s : Switch) : String :=
  match s.value with
  | some (.oneOf choices) => "\x7b" ++ String.intercalate "," choices ++ "\x7d"
  | some _ => s.label
  | none => ""

def inCall (s : Switch) : String :=
  match s.value with
  | some _ => "[" ++ s.names.headD "" ++ " " ++ s.placeholder ++ "]"
  | none =>
    if s.names == helpSwitch.names then "[-h]" else "[" ++ String.intercalate " | " s.names ++ "]"

def inList (s : Switch) : String :=
  match s.value with
  | some _ => String.intercalate ", " (s.names.map (· ++ " " ++ s.placeholder))
  | none => String.intercalate ", " s.names

end Switch

/-- Lines of parts with a space between them, each as long as can be, given the parts on the
current line and its length. -/
def callLines (indent : Nat) (line : List String) (length : Nat) : List String → List String
  | [] => if line.isEmpty then [] else [String.intercalate " " line]
  | part :: rest =>
    if length + 1 + part.length > helpWidth && !line.isEmpty then
      String.intercalate " " line ::
        callLines indent [part] (indent - 1 + part.length + 1) rest
    else callLines indent (line ++ [part]) (length + part.length + 1) rest

def helpEntry (header help : String) : List String :=
  let lines := fill (helpWidth - helpColumn) help
  let continued := lines.map (spaces helpColumn ++ ·)
  if header.length ≤ helpColumn - 4 then
    match lines with
    | first :: _ =>
      ("  " ++ Text.padRight (helpColumn - 4 : Nat) header ++ "  " ++ first) :: continued.drop 1
    | [] => ["  " ++ header]
  else ("  " ++ header) :: continued

namespace Usage

def operandParts (u : Usage) : List String :=
  match u.operands with
  | .none => []
  | .one => ["input_file"]
  | .several => ["input_file", "[input_file ...]"]

def callText (u : Usage) (program : String) : List String :=
  let leader := "usage: "
  let switches := u.allSwitches.map (·.inCall)
  let whole := leader ++ String.intercalate " " (program :: switches ++ u.operandParts)
  if whole.length ≤ helpWidth then [whole]
  else
    let indent := leader.length + program.length + 1
    let lines := callLines indent [] (leader.length - 1) (program :: switches) ++
      callLines indent [] (indent - 1) u.operandParts
    lines.zipIdx.map fun (line, i) => (if i = 0 then leader else spaces indent) ++ line

def helpText (u : Usage) (program : String) : String :=
  let operands :=
    if u.operands == .none then []
    else ["", "positional arguments:"] ++ helpEntry "input_file" u.operandHelp
  let switches := u.allSwitches.flatMap fun s => helpEntry s.inList s.help
  Text.joinLines (u.callText program ++ [""] ++ fill helpWidth u.description ++ operands ++
    ["", "options:"] ++ switches) ++ "\n"

end Usage

end BinaryLayout.CommandLine
