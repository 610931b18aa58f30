import BinaryLayout.Language.ErrorExamples
import BinaryLayout.Language.Grammar

/-!
# The parsers of the language

One parser reads whole modules and explains typical errors; the other reads single expressions.
-/

namespace BinaryLayout.Language

def moduleParser : Checked LR.Parser := do
  trainedParser ⟨moduleSymbol, productions⟩ (← readExamples errorExampleText)

def expressionParser : Checked LR.Parser :=
  trainedParser ⟨expressionSymbol, productions⟩ []

end BinaryLayout.Language
