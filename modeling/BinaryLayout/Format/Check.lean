import BinaryLayout.Diagnostic.Debug
import BinaryLayout.Token.Scan

/-!
# Checking formatted texts

Formatting may only change blanks.  Two texts are equivalent if they are made of the same tokens;
runs of line ends count as one, those at the start do not count, and neither do blanks at the ends
of tokens.
-/

namespace BinaryLayout.Format

def lineEnd : String :=
  "\"\\n\""

def collapseLineEnds (afterLineEnd : Bool) : List LR.Token → List LR.Token
  | [] => []
  | t :: rest =>
    if t.symbol = lineEnd then
      if afterLineEnd then collapseLineEnds true rest else t :: collapseLineEnds true rest
    else t :: collapseLineEnds false rest

def tokenDifference? (index : Nat) : List LR.Token → List LR.Token → Checked (Option String)
  | [], _ => return none
  | _ :: _, [] => throw .outOfRange
  | t :: rest, u :: others =>
    if t.symbol = u.symbol ∧ Text.stripped t.text = Text.stripped u.text then
      tokenDifference? (index + 1) rest others
    else
      return some ("BUG: Symbol " ++ Text.decimal index ++ " differs: " ++ t.debugText ++ " vs " ++
        u.debugText)

def checkFormatted (formatted source : String) : Checked (List String) := do
  match Token.scan source "" with
  | .error e => return ["BUG: original text is not tokenizable: " ++ debugGroups [[e]]]
  | .ok expected =>
    match Token.scan formatted "" with
    | .error e => return ["BUG: formatted text is not tokenizable: " ++ debugGroups [[e]]]
    | .ok found =>
      let difference ← tokenDifference? 0 (collapseLineEnds true expected)
        (collapseLineEnds true found)
      return difference.toList

end BinaryLayout.Format
