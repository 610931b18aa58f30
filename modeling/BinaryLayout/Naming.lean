import BinaryLayout.Text.Case
import BinaryLayout.Text.Lines

/-!
# Styles of names

Names are written in one of four styles, and some of them can be turned into others.
-/

namespace BinaryLayout

inductive NameStyle where
  /-- `small_words` -/
  | snake
  /-- `CAPITAL_WORDS` -/
  | shouty
  /-- `InnerCapitals` -/
  | camel
  /-- `kInnerCapitals` -/
  | kCamel
deriving DecidableEq

namespace NameStyle

def text : NameStyle → String
  | .snake => "snake_case"
  | .shouty => "SHOUTY_CASE"
  | .camel => "CamelCase"
  | .kCamel => "kCamelCase"

def all : List NameStyle := [.snake, .shouty, .camel, .kCamel]

def ofText? (s : String) : Option NameStyle :=
  all.find? (·.text == s)

end NameStyle

def snakeToCamel (name : String) : String :=
  String.join ((Text.splitOn "_" name).map Text.capitalize)

/-- Turn a name of one style into one of another; not all pairs of styles allow it. -/
def convertName (source target : NameStyle) (name : String) : Option String :=
  if source = target then some name
  else
    match source, target with
    | .snake, .camel | .shouty, .camel => some (snakeToCamel name)
    | .camel, .kCamel => some ("k" ++ name)
    | .snake, .kCamel | .shouty, .kCamel => some ("k" ++ snakeToCamel name)
    | _, _ => none

end BinaryLayout
