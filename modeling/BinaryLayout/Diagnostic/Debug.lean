import BinaryLayout.Diagnostic.Basic
import BinaryLayout.LR.Tree
import BinaryLayout.Text.Quoted

/-!
# Values in full

Positions, tokens and messages written out with the names of their parts, for those who look at
the compiler and not at a definition.
-/

namespace BinaryLayout

def debugBool (b : Bool) : String :=
  if b then "True" else "False"

def Position.debugText (p : Position) : String :=
  "SourcePosition(line=" ++ Text.decimal p.line ++ ", column=" ++ Text.decimal p.column ++ ")"

def Location.debugText (l : Location) : String :=
  "SourceLocation(start=" ++ l.start.debugText ++ ", end=" ++ l.stop.debugText ++
    ", is_disjoint_from_parent=" ++ debugBool l.isDisjoint ++
    ", is_synthetic=" ++ debugBool l.isSynthetic ++ ")"

def LR.Token.debugText (t : LR.Token) : String :=
  "Token(symbol=" ++ Text.quoted t.symbol ++ ", text=" ++ Text.quoted t.text ++
    ", source_location=" ++ (t.location.map Location.debugText).getD "None" ++ ")"

def LR.Token.shown (t : LR.Token) : String :=
  t.symbol ++ " " ++ Text.quoted t.text ++ " " ++ (t.location.map Location.text).getD "None"

def Origin.debugText : Origin → String
  | .file name => Text.quoted name
  | .reference _ shown => shown

def Message.debugText (m : Message) : String :=
  "Message(" ++ m.origin.debugText ++ ", " ++ m.location.debugText ++ ", " ++
    Text.quoted m.severity.text ++ ", " ++ Text.quoted m.text ++ ")"

def debugList (texts : List String) : String :=
  "[" ++ String.intercalate ", " texts ++ "]"

def debugGroups (groups : List MessageGroup) : String :=
  debugList (groups.map fun group => debugList (group.map Message.debugText))

mutual

/-- A parse tree as an outline: every symbol on a line of its own, the parts of a node below it
and further to the right. -/
def LR.Tree.outline (indent : String) : LR.Tree → String
  | .leaf token => indent ++ token.shown ++ "\n"
  | .node production [] _ => indent ++ production.lhs ++ "\n"
  | .node production (child :: rest) _ =>
    indent ++ production.lhs ++ ":\n" ++ LR.Tree.outline (indent ++ "  ") child ++
      LR.Tree.outlineAll (indent ++ "  ") rest

def LR.Tree.outlineAll (indent : String) : List LR.Tree → String
  | [] => ""
  | tree :: rest => LR.Tree.outline indent tree ++ LR.Tree.outlineAll indent rest

end

end BinaryLayout
