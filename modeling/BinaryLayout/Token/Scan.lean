import BinaryLayout.Diagnostic.Basic
import BinaryLayout.LR.Tree
import BinaryLayout.Token.Pattern

/-!
# Scanning a text into tokens

Every line is cut into tokens, each the longest possible at its place, and white space is left
out.  A line with something other than a comment also opens or closes blocks: white space that
extends that of the enclosing block opens a block with an `Indent`, and one `Dedent` closes each
block that the line has left.  Every line ends with an end-of-line token, and the end of the text
closes all blocks.
-/

namespace BinaryLayout.Token

open LR (Token)

def endOfLine : String := "\"\\n\""

def scanFrom (line : Nat) (column : Nat) (s : List Char) : Except Nat (List Token) :=
  match s with
  | [] => .ok []
  | c :: rest =>
    match longestMatch forms (c :: rest) with
    | (_, 0) => .error column
    | (none, n + 1) => scanFrom line (column + n + 1) (rest.drop n)
    | (some symbol, n + 1) => do
      let tokens ← scanFrom line (column + n + 1) (rest.drop n)
      let text := String.ofList ((c :: rest).take (n + 1))
      return ⟨symbol, text, some (.onLine line column (column + n + 1))⟩ :: tokens
termination_by s.length
decreasing_by
  all_goals simp only [List.length_drop, List.length_cons]; omega

/-- The white space of the blocks that are open, the innermost first. -/
abbrev Indentation := List (List Char)

def closeBlocks (line : Nat) (space : List Char) : Indentation → Option (List Token × Indentation)
  | [] => none
  | block :: outer =>
    if space = block then some ([], block :: outer)
    else
      let column := space.length + 1
      (closeBlocks line space outer).map fun (tokens, blocks) =>
        (⟨"Dedent", "", some (.onLine line column column)⟩ :: tokens, blocks)

/-- The tokens that open or close blocks before a line with the given white space, and the blocks
that are open then; nothing if the white space fits no block. -/
def adjustBlocks (line : Nat) (space : List Char) (blocks : Indentation) :
    Option (List Token × Indentation) :=
  let current := blocks.headD []
  if space = current then some ([], blocks)
  else if current.isPrefixOf space then
    let location := Location.onLine line (current.length + 1) (space.length + 1)
    let text := String.ofList (space.drop current.length)
    some ([⟨"Indent", text, some location⟩], space :: blocks)
  else closeBlocks line space blocks

def lineEnd (line length : Nat) : Token :=
  ⟨endOfLine, "\n", some (.onLine line (length + 1) (length + 1))⟩

/-- A place in a text that cannot be scanned. -/
structure ScanError where
  location : Location
  text : String

def scanLine (line : Nat) (s : List Char) (blocks : Indentation) :
    Except ScanError (List Token × Indentation) :=
  match scanFrom line 1 s with
  | .error column => .error ⟨.onLine line column (column + 1), "Unrecognized token"⟩
  | .ok tokens =>
    if tokens.all (·.symbol == "Comment") then .ok (tokens ++ [lineEnd line s.length], blocks)
    else
      let space := s.takeWhile Text.isBlank
      match adjustBlocks line space blocks with
      | none => .error ⟨.onLine line 1 (space.length + 1), "Bad indentation"⟩
      | some (marks, blocks) => .ok (marks ++ tokens ++ [lineEnd line s.length], blocks)

def scanLines (line : Nat) (blocks : Indentation) : List (List Char) → Except ScanError (List Token)
  | [] =>
    .ok (List.replicate (blocks.length - 1) ⟨"Dedent", "", some (.onLine line 1 1)⟩)
  | s :: rest => do
    let (tokens, blocks) ← scanLine line s blocks
    let others ← scanLines (line + 1) blocks rest
    return tokens ++ others

def scan (text file : String) : Except Message (List Token) :=
  match scanLines 1 [[]] (Text.linesFrom [] text.toList) with
  | .ok tokens => .ok tokens
  | .error e => .error (.error file (some e.location) e.text)

end BinaryLayout.Token
