import BinaryLayout.Diagnostic.Debug
import BinaryLayout.LR.Mark
import BinaryLayout.Token.Scan

/-!
# Learning from examples of errors

A text of examples is cut into sections, each with a message and examples of the error that the
message explains.  A parser that is made from a grammar and such examples gives the message
wherever it meets the same error.
-/

namespace BinaryLayout.Language

open LR

/-- An input that is wrong in a typical way. -/
structure ErrorExample where
  input : List Lexeme
  /-- The element at which the error is found; the end of the input if there is none. -/
  place : Option Lexeme
  message : String
  text : String

def sectionLine : String := String.ofList (List.replicate 80 '=')

def messageLine : String := String.ofList (List.replicate 80 '-')

def piecesBetween (line text : String) : List String :=
  Text.splitOn ("\n" ++ line ++ "\n") text

def wildcardOf (t : Token) : Lexeme :=
  if t.symbol = "BadWord" ∧ t.text = "$ANY" then .wildcard else .token t

def isErrorMark : Lexeme → Bool
  | .token t => t.symbol == "BadWord" && t.text == "$ERR"
  | .wildcard => false

def takeErrorMark : List Lexeme → Option (List Lexeme × Option Lexeme)
  | [] => none
  | l :: rest =>
    if isErrorMark l then some (rest, rest.head?)
    else (takeErrorMark rest).map fun (others, place) => (l :: others, place)

def readExample (whole message text : String) : Checked ErrorExample :=
  match Token.scan text "" with
  | .error e => .error (.machine (debugGroups [[e]]))
  | .ok tokens =>
    match takeErrorMark (tokens.map wildcardOf) with
    | none => .error (.machine ("No error token marker '$ERR' in:\n" ++ whole))
    | some (_, none) => .error .outOfRange
    | some (input, some place) => .ok ⟨input, some place, Text.stripped message, text⟩

def readSection (text : String) : Checked (List ErrorExample) :=
  match piecesBetween messageLine text with
  | [message, examples] => (piecesBetween "---" examples).mapM (readExample text message)
  | _ =>
    .error (.machine ("Expected one error message and one example section in:\n" ++ text))

/-- Read a text of examples.  What stands before the first section explains the others. -/
def readExamples (text : String) : Checked (List ErrorExample) := do
  let sections ← (piecesBetween sectionLine text).tail.mapM readSection
  return sections.flatten

def learn (parser : Parser) (e : ErrorExample) : Checked Parser := do
  match ← parser.mark e.input e.place e.message with
  | .ok parser => return parser
  | .error reason =>
    throw (.machine ("error marking example: " ++ reason ++ "\nExample:\n" ++ e.text))

/-- A parser for a grammar that knows the messages of some examples.  The grammar may not be
ambiguous. -/
def trainedParser (g : Grammar) (examples : List ErrorExample) : Checked Parser := do
  let table ← g.table
  if !table.conflicts.isEmpty then
    throw (.machine (String.intercalate "\n" (table.conflicts.map fun (state, symbol) =>
      "Conflict for " ++ Text.quoted symbol ++ " in state " ++ Text.decimal state)))
  examples.foldlM learn ⟨table, {}⟩

end BinaryLayout.Language
