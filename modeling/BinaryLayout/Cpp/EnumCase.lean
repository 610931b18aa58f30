import BinaryLayout.Naming

/-!
# Styles for the names of enumeration values

The styles are given as a list with commas between them.  A piece of the list that is blank
stands for a style without a name, except that a comma may follow the last one.
-/

namespace BinaryLayout.Cpp

/-- A part of a text: where it begins, and where it ends. -/
abbrev Span := Nat × Nat

/-- The place of the first comma from a place on, or the end of the text. -/
def commaFrom (s : List Char) (start : Nat) : Nat :=
  start + ((s.drop start).takeWhile (· != ',')).length

/-- A place of a text, moved forward past white space, but not past the end of a piece. -/
def skipBlanks (s : List Char) (first last : Nat) : Nat :=
  if first < last ∧ s[first]?.any Text.isBlank then skipBlanks s (first + 1) last else first
termination_by last - first

/-- The end of a piece, moved back past white space, but not past its beginning. -/
def dropBlanks (s : List Char) (first last : Nat) : Nat :=
  if first < last ∧ s[last - 1]?.any Text.isBlank then dropBlanks s first (last - 1) else last

/-- The spans of the pieces from a place on. -/
def spansFrom (s : List Char) (start : Nat) : List Span :=
  if start ≤ s.length then
    let comma := commaFrom s start
    let first := skipBlanks s start comma
    if first = s.length ∧ start ≠ 0 then []
    else (first, dropBlanks s first comma) :: spansFrom s (comma + 1)
  else []
termination_by s.length + 1 - start
decreasing_by
  have : start ≤ commaFrom s start := Nat.le_add_right ..
  omega

def enumCaseSpans (s : String) : List Span :=
  spansFrom s.toList 0

def Span.cut (s : List Char) (span : Span) : List Char :=
  (s.drop span.1).take (span.2 - span.1)

def Span.of (s : String) (span : Span) : String :=
  String.ofList (span.cut s.toList)

def enumCases (s : String) : List String :=
  (enumCaseSpans s).map (Span.of s)

def supportedCases : List NameStyle :=
  [.shouty, .kCamel]

end BinaryLayout.Cpp
