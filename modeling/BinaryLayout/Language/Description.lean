import BinaryLayout.Language.Grammar
import BinaryLayout.Language.Reserved
import BinaryLayout.Text.WordChar
import BinaryLayout.Token.Scan

/-!
# A description of the language

The grammar, the forms of tokens and the reserved words, as a document with markup.
-/

namespace BinaryLayout.Language

open LR (Production)

def descriptionWidth : Nat := 80

def wrapFrom (width : Int) (current : List String) : List String → List String
  | [] => [String.intercalate " " current.reverse]
  | word :: rest =>
    let line := String.intercalate " " (word :: current).reverse
    if (line.length : Int) > width then
      String.intercalate " " current.reverse :: wrapFrom width [word] rest
    else wrapFrom width (word :: current) rest

/-- Lines of words, each as long as can be within a width.  No word may be longer than that. -/
def wrapWords (words : List String) (width : Int) : Checked (List String) := do
  let lines := wrapFrom width [] words
  Failure.ensure (lines.all fun line => (line.length : Int) ≤ width)
  return lines

def greatestLength (texts : List String) : Checked Nat :=
  if texts.isEmpty then .error .malformed else .ok ((texts.map String.length).foldl max 0)

def productionLines (width : Nat) (previous : Option String) (p : Production) :
    Checked (List String) := do
  let leader :=
    if previous == some p.lhs then Text.padRight width "" ++ "  |"
    else Text.padRight width p.lhs ++ " ->"
  let words := if p.rhs.isEmpty then ["<empty>"] else p.rhs
  let lines ← wrapWords words ((descriptionWidth : Int) - leader.length)
  return lines.zipIdx.map fun (line, index) =>
    (if index = 0 then leader else Text.padRight leader.length "") ++ " " ++ line ++ "\n"

/-- A list of productions in the document.  The left side is not written again for one that has
the same as the one before it. -/
def productionListing (productions : List Production) : Checked String := do
  let width ← greatestLength (productions.map (·.lhs))
  let previous := none :: productions.map fun p => some p.lhs
  let lines ← (previous.zip productions).mapM fun (before, p) => productionLines width before p
  return "```shell\n" ++ String.join lines.flatten ++ "```\n"

def isMarked (symbol : String) : Bool :=
  match symbol.toList.getLast? with
  | some c => c == '*' || c == '+' || c == '?'
  | none => false

def unmarked (symbol : String) : String :=
  if isMarked symbol then String.ofList symbol.toList.dropLast else symbol

/-- The productions that can be reached from symbols that wait, the last symbol first.  A symbol
that is used with a mark counts without it. -/
def reachable (productions : List Production) : Nat → List String → List String →
    List Production
  | 0, _, _ => []
  | _ + 1, [], _ => []
  | fuel + 1, symbol :: waiting, seen =>
    let own := productions.filter (·.lhs == symbol)
    let (waiting, seen) := ((own.flatMap (·.rhs)).map unmarked).foldl
      (fun (waiting, seen) s =>
        if seen.contains s then (waiting, seen) else (s :: waiting, s :: seen))
      (waiting, seen)
    own ++ reachable productions fuel waiting seen

/-- Productions in the order in which they are read best: those for repeated and optional symbols
apart, and the others from the start on. -/
def sortProductions (productions : List Production) (start : String) :
    Checked (List Production × List Production) := do
  let sorted := (productions.mergeSort Production.le).eraseDups
  let symbols := (productions.map (·.rhs.length)).foldr (· + ·) 1
  let main := reachable sorted symbols [start] [start]
  let others := sorted.filter fun p => !main.contains p
  Failure.ensure (others.all fun p => isMarked p.lhs)
  Failure.ensure (productions.length = main.length + others.length)
  return (main, others)

def literalPattern (literal : String) : String :=
  String.ofList (literal.toList.flatMap fun c => if Text.isWordChar c then [c] else ['\\', c])

def literalRules (literals : List String) : List (String × Option String) :=
  literals.map fun l => (literalPattern l, some ("\"" ++ l ++ "\""))

/-- The patterns of tokens; a bar would end a column of the table. -/
def patternRules (patterns : List Token.Pattern) : List (String × Option String) :=
  patterns.map fun p => (Text.replaceAll "|" "\\|" p.regex, p.symbol)

def tokenTable (rules : List (String × Option String)) : Checked String := do
  let width := (← greatestLength (rules.map (·.1))) + 2
  let dashes (n : Nat) : String := String.ofList (List.replicate n '-')
  let lines := rules.map fun (pattern, symbol) =>
    let shown := match symbol with
      | some "" | none => "*no symbol emitted*"
      | some s => "`" ++ s ++ "`"
    Text.padRight width ("`" ++ pattern ++ "`") ++ " | " ++ shown ++ "\n"
  return Text.padRight width "Pattern" ++ " | Symbol\n" ++ dashes width ++ " | " ++ dashes 30 ++
    "\n" ++ String.join lines

def isNameLike (word : String) : Checked Bool :=
  match Token.scan word "" with
  | .ok (t :: _) => .ok (["SnakeWord", "CamelWord", "ShoutyWord"].contains t.symbol)
  | _ => .error .invariant

def nameLikeWords (words : List String) : Checked (List String) := do
  return (← words.filterM isNameLike).mergeSort fun a b => (compare a b).isLE

/-- The lines of a list of words that are full.  A line that is not full at the end is left out. -/
def keywordLines (current : String) : List String → List String
  | [] => []
  | word :: rest =>
    let entry := "`" ++ word ++ "` "
    if current.length + word.length + 2 > descriptionWidth then current :: keywordLines entry rest
    else keywordLines (current ++ entry) rest

def keywordListing (words : List String) : String :=
  String.join ((keywordLines "" words).map fun line =>
    String.ofList line.toList.dropLast ++ "\n")

def descriptionHeader : String :=
  Text.joinLines [
    "This is the context-free grammar for Emboss.  Terminal symbols are in `\"quotes\"`",
    "or are named in `CamelCase`; nonterminal symbols are named in `snake_case`.  The",
    "term `<empty>` to the right of the `->` indicates an empty production (a rule",
    "where the left-hand-side may be parsed from an empty string).",
    "",
    "This listing is auto-generated from the grammar defined in `module_ir.py`.",
    "",
    "Note that, unlike in many languages, comments are included in the grammar.  This",
    "is so that comments can be handled more easily by the autoformatter; comments",
    "are ignored by the compiler.  This is distinct from *documentation*, which is",
    "included in the IR for use by documentation generators.",
    "",
    ""]

/-- What stands before the productions for repeated and optional symbols. -/
def markedHeader : String :=
  Text.joinLines [
    "",
    "The following productions are automatically generated to handle zero-or-more,",
    "one-or-more, and zero-or-one repeated lists (`foo*`, `foo+`, and `foo?`",
    "nonterminals) in LR(1).  They are included for completeness, but may be ignored",
    "if you just want to understand the grammar.",
    "",
    ""]

def tokenHeader : String :=
  Text.joinLines [
    "",
    "The following regexes are used to tokenize input into the corresponding symbols.",
    "Note that the `Indent`, `Dedent`, and `EndOfLine` symbols are generated using",
    "separate logic.",
    "",
    ""]

def keywordHeader (count : Nat) : String :=
  Text.joinLines [
    "",
    "The following " ++ Text.decimal count ++
      " keywords are reserved, but not used, by Emboss.  They may not",
    "be used as field, type, or enum value names.",
    "",
    ""]

def description : Checked String := do
  let (main, others) ← sortProductions productions moduleSymbol
  let mainListing ← productionListing main
  let otherListing ← productionListing others
  let tokens ← tokenTable (literalRules Token.literals ++ patternRules Token.patterns)
  let words ← nameLikeWords reservedWords.keys
  return descriptionHeader ++ mainListing ++ markedHeader ++ otherListing ++ tokenHeader ++
    tokens ++ keywordHeader words.length ++ keywordListing words

end BinaryLayout.Language
