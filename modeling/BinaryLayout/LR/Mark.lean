import BinaryLayout.LR.Parser
import BinaryLayout.Text.Quoted

/-!
# Notes by example

An error state is given a note by an example: an input that is rejected, with the place where
that happens.  A note at the wildcard holds for every terminal without a note of its own.  A note
once made is never replaced.
-/

namespace BinaryLayout.LR

/-- How the terminal of an element of the input is shown; the wildcard has none. -/
def Lexeme.shown : Lexeme → String
  | .token t => t.symbol
  | .wildcard => "<object object at 0x0>"

def ParseError.foundSymbol (e : ParseError) : String :=
  match e.found with
  | some l => l.shown
  | none => endSymbol

namespace Parser

def noteGeneral (p : Parser) (state : Nat) (code : String) : Except String Parser :=
  match p.notes.general.lookup state with
  | some old =>
    if old = code then .ok p
    else .error ("Attempted to overwrite existing default error code " ++ Text.quoted old ++
      " with new error code " ++ Text.quoted code ++ " for state " ++ Text.decimal state)
  | none => .ok { p with notes := { p.notes with general := (state, code) :: p.notes.general } }

def noteSpecific (p : Parser) (state : Nat) (terminal code : String) : Except String Parser :=
  match p.notes.specific.lookup (state, terminal) with
  | some old =>
    if old = code then .ok p
    else .error ("Attempted to overwrite existing error code " ++ Text.quoted old ++
      " with new error code " ++ Text.quoted code ++ " for state " ++ Text.decimal state ++
      ", terminal " ++ terminal)
  | none =>
    let specific := ((state, terminal), code) :: p.notes.specific
    .ok { p with notes := { p.notes with specific := specific } }

def record (p : Parser) (e : ParseError) (place : Option Lexeme) (code : String) :
    Except String Parser :=
  match place with
  | none =>
    if e.foundSymbol = endSymbol then p.noteSpecific e.state endSymbol code
    else .error ("error occurred on " ++ e.foundSymbol ++ " token, not end of input.")
  | some l =>
    if e.found = some l then
      match l with
      | .wildcard => p.noteGeneral e.state code
      | .token t => p.noteSpecific e.state t.symbol code
    else
      .error ("error occurred on " ++ e.foundSymbol ++ " token, not " ++ l.shown ++ " token.")

/-- Give the error state that an input leads to a note.  The error has to occur at `place`, or at
the end of the input if there is none. -/
def mark (p : Parser) (input : List Lexeme) (place : Option Lexeme) (code : String) :
    Checked (Except String Parser) := do
  match ← p.parse input with
  | .ok _ => return .error "Input successfully parsed."
  | .error e => return p.record e place code

end Parser

end BinaryLayout.LR
