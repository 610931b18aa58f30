import BinaryLayout.LR.Grammar
import BinaryLayout.Text.Lines

/-!
# Items

An item is a production with a dot in its right side and a terminal: what stands before the dot
has been read, and the terminal may follow when the whole right side has been.  It is written as
in `sum -> sum . plus term, $`.
-/

namespace BinaryLayout.LR

/-- A production that has been read up to the dot, and the terminal expected after it. -/
structure Item where
  production : Production
  /-- How many symbols of the right side stand before the dot. -/
  dot : Nat
  /-- The terminal that follows the production in the input. -/
  lookahead : String
deriving DecidableEq

namespace Item

def next? (i : Item) : Option String :=
  i.production.rhs[i.dot]?

/-- The item in the usual notation, with a dot between the symbols. -/
def text (i : Item) : String :=
  let rhs := i.production.rhs
  i.production.lhs ++ " -> " ++
    String.intercalate " " (rhs.take i.dot ++ "." :: rhs.drop i.dot) ++ ", " ++ i.lookahead

def halves (separator s : String) : Checked (String × String) :=
  match Text.splitOn separator s with
  | [before, after] => .ok (before, after)
  | _ => .error .malformed

def ofText (s : String) : Checked Item := do
  let (rule, lookahead) ← halves "," s
  let (lhs, rhs) ← halves "->" rule
  let (before, after) ← halves "." rhs
  let handle := Text.words before
  return ⟨⟨Text.stripped lhs, handle ++ Text.words after⟩, handle.length, Text.stripped lookahead⟩

end Item

end BinaryLayout.LR
