import BinaryLayout.Diagnostic.Render
import BinaryLayout.Language.Meaning
import BinaryLayout.Language.Parser

/-!
# Reading a module or an expression

From a text to its first representation.  A text that cannot be read is answered with messages.
-/

namespace BinaryLayout.Language

open IR

/-- A text that has been read, with all that was found on the way. -/
structure ReadModule where
  fileName : String
  text : String
  tokens : List LR.Token
  tree : LR.Tree
  /-- The productions in the tree. -/
  rules : List LR.Production
  contents : Module

def ReadModule.usedProductions (m : ReadModule) : List LR.Production :=
  m.rules.mergeSort LR.Production.le

def parseText (text file : String) : Checked (Reported (List LR.Token × LR.Tree)) := do
  match Token.scan text file with
  | .error e => return .error [[e]]
  | .ok tokens =>
    match ← (← moduleParser).parseTokens tokens with
    | .error e => return .error [[← syntaxError file e]]
    | .ok tree => return .ok (tokens, tree)

/-- The most decimal digits, zeros in front included, that are read or written as a number. -/
def digitLimit : Nat := 4300

def isReadable (number : String) : Bool :=
  let digits := number.toList.filter (· != '_')
  numberValue number < Nat.pow 10 digitLimit &&
    (digits.length ≤ digitLimit || [['0', 'b'], ['0', 'x']].contains (digits.take 2))

def checkNumbers (tokens : List LR.Token) : Checked Unit :=
  unless tokens.all fun t => t.symbol != "Number" || isReadable t.text do throw .malformed

/-- Read a module.  Unnamed fields are numbered from `named + 1` on; the number of the last one
is part of the result. -/
def readModule (text file : String) (named : Nat) :
    Checked (Reported (ReadModule × Nat)) := do
  match ← parseText text file with
  | .error groups => return .error groups
  | .ok (tokens, tree) =>
    checkNumbers tokens
    match ← meaningAndRules tree named with
    | ((.whole contents, rules), named) =>
      let contents := { contents with sourceText := some text, fileName := some file }
      return .ok (⟨file, text, tokens, tree, rules, contents⟩, named)
    | _ => throw .invariant

/-- Why a text is not an expression. -/
inductive ExpressionError where
  | scan (e : Message)
  | parse (e : LR.ParseError)

/-- Read an expression.  The end of the line is not part of it. -/
def readExpression (text : String) : Checked (Except ExpressionError Expression) := do
  match Token.scan text "" with
  | .error e => return .error (.scan e)
  | .ok tokens =>
    match ← (← expressionParser).parseTokens tokens.dropLast with
    | .error e => return .error (.parse e)
    | .ok tree =>
      checkNumbers tokens
      match ← meaningOf tree 0 with
      | (.expression e, _) => return .ok e
      | _ => throw .invariant

end BinaryLayout.Language
