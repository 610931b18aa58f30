import BinaryLayout.LR.Parser
import BinaryLayout.Text.Keyword
import BinaryLayout.Text.Quoted

/-!
# Parsers as source code

A parser can be written as the source code of a function that makes it again.  Every symbol, note
and production is bound to an identifier once, in an order in which what it is made of comes
first.  The more often one is used the shorter is its identifier.
-/

namespace BinaryLayout.LR

def identifierStarts : List Char :=
  "abcdefghijklmnopqrstuvwxyzABCDEFGHIJKLMNOPQRSTUVWXYZ".toList

def identifierChars : List Char :=
  identifierStarts ++ "0123456789_".toList

/-- The digits of a number, the last one first, as characters of an identifier. -/
def identifierTail (n : Nat) : List Char :=
  if h : n = 0 then []
  else identifierChars.getD (n % 63) '_' :: identifierTail (n / 63)
termination_by n
decreasing_by exact Nat.div_lt_self (Nat.pos_of_ne_zero h) (by decide)

/-- The identifier with a number; shorter ones have lower numbers. -/
def identifier (n : Nat) : String :=
  String.ofList (identifierStarts.getD (n % 52) 'a' :: identifierTail (n / 52))

/-- Something that is bound to an identifier. -/
inductive Bound where
  | text (s : String)
  | rule (p : Production)
deriving DecidableEq

namespace Bound

/-- The order in which identifiers are given out to those that are used equally often: texts
before productions, and each from the last to the first. -/
def before : Bound → Bound → Bool
  | .text a, .text b => (compare b a).isLE
  | .text _, .rule _ => true
  | .rule _, .text _ => false
  | .rule p, .rule q => q.le p

end Bound

inductive ListingPiece where
  | text (s : String)
  | name (b : Bound)

def ListingPiece.bound? : ListingPiece → Option Bound
  | .text _ => none
  | .name b => some b

abbrev Draft := List ListingPiece

def commaPieces (pieces : List Draft) : Draft :=
  [ListingPiece.text ","].intercalate pieces

/-- The right side of a production. -/
def sequence (symbols : List String) : Draft :=
  match symbols.map fun s => ListingPiece.name (.text s) with
  | [] => [.text "()"]
  | [symbol] => [.text "(", symbol, .text ",)"]
  | several => [.text "("] ++ commaPieces (several.map ([·])) ++ [.text ")"]

/-- The line that binds something to its identifier. -/
def declaration (b : Bound) : Draft :=
  match b with
  | .text s => [.text " ", .name b, .text ("=" ++ Text.quoted s ++ "\n")]
  | .rule p =>
    [.text " ", .name b, .text "=P(", .name (.text p.lhs), .text ","] ++ sequence p.rhs ++
      [.text ")\n"]

/-- A list with one more at its end, unless it is there already. -/
def bindLast (bound : List Bound) (b : Bound) : List Bound :=
  if bound.contains b then bound else bound ++ [b]

def bindParts (bound : List Bound) (b : Bound) : List Bound :=
  if bound.contains b then bound
  else
    match b with
    | .text _ => bound ++ [b]
    | .rule p => (p.lhs :: p.rhs).foldl (fun bound s => bindLast bound (.text s)) bound ++ [b]

def tableRow (state : Nat) (entries : List (String × Draft)) : Draft :=
  [.text ("  " ++ Text.decimal state ++ ":\x7b")] ++
    commaPieces (entries.map fun (symbol, entry) =>
      [ListingPiece.name (.text symbol), .text ":"] ++ entry) ++
    [.text "\x7d,\n"]

def sortedEntries {α : Type} (entries : List (String × α)) : List (String × α) :=
  entries.mergeSort fun a b => (compare a.1 b.1).isLE

def actionPieces : Action → Draft
  | .shift state => [.text ("S(" ++ Text.decimal state ++ ")")]
  | .reduce rule => [.text "R(", .name (.rule rule), .text ")"]
  | .accept => [.text "A()"]

def tableRows (entriesOf : Nat → Row → List (String × Draft)) (rows : Array Row) : Draft :=
  rows.toList.zipIdx.flatMap fun (row, state) =>
    match sortedEntries (entriesOf state row) with
    | [] => []
    | entries => tableRow state entries

namespace Parser

def actionEntries (p : Parser) (state : Nat) (row : Row) : List (String × Draft) :=
  row.actions.toList.map (fun (symbol, action) => (symbol, actionPieces action)) ++
    p.notes.specific.filterMap fun ((noted, symbol), code) =>
      if noted = state then some (symbol, [.text "E(", .name (.text code), .text ")"]) else none

def gotoEntries (row : Row) : List (String × Draft) :=
  row.gotos.toList.map fun (symbol, state) => (symbol, [.text (Text.decimal state)])

/-- The function without the lines that bind identifiers. -/
def body (p : Parser) : Draft :=
  [.text " prods = \x7b\n"] ++
    p.table.productions.flatMap (fun rule => [.text "  ", .name (.rule rule), .text ",\n"]) ++
    [.text " \x7d\n goto = \x7b\n"] ++
    tableRows (fun _ row => gotoEntries row) p.table.rows ++
    [.text " \x7d\n act = \x7b\n"] ++
    tableRows p.actionEntries p.table.rows ++
    [.text " \x7d\n defe = \x7b\n"] ++
    (p.notes.general.mergeSort fun a b => a.1 ≤ b.1).flatMap (fun (state, code) =>
      [.text ("  " ++ Text.decimal state ++ ":"), .name (.text code), .text ",\n"]) ++
    [.text (" \x7d\n return lr1.Parser(\n  item_sets=None,\n  goto=goto,\n  action=act,\n" ++
      "  conflicts=set(),\n  terminals=None,\n  nonterminals=None,\n  productions=prods,\n" ++
      "  default_errors=defe,\n )")]

end Parser

def usedIdentifiers : List String :=
  ["P", "S", "R", "A", "E", "prods", "act", "goto", "defe"]

def isFree (name : String) : Bool :=
  !usedIdentifiers.contains name && !Text.scriptKeywords.contains name

def freeIdentifiers (count : Nat) : List String :=
  (((List.range (count + usedIdentifiers.length + Text.scriptKeywords.length)).map
    identifier).filter isFree).take count

def chooseIdentifiers (bound : List Bound) (draft : Draft) : List (Bound × String) :=
  let uses := draft.filterMap ListingPiece.bound?
  let counted := bound.map fun b => (uses.count b, b)
  let ranked := counted.mergeSort fun (n, a) (m, b) => m < n || (n == m && a.before b)
  (ranked.map (·.2)).zip (freeIdentifiers bound.length)

def Draft.render (names : List (Bound × String)) (draft : Draft) : String :=
  String.join (draft.map fun
    | .text s => s
    | .name b => (names.lookup b).getD "")

/-- The source code of a function that makes a parser. -/
def Parser.listing (p : Parser) (name : String) : String :=
  let body := p.body
  let bound := (body.filterMap ListingPiece.bound?).foldl bindParts []
  let definitions := bound.flatMap declaration
  let names := chooseIdentifiers bound (definitions ++ body)
  "def " ++ name ++ "():\n P = parser_types.Production\n S = lambda x: lr1.Shift(x, ())\n" ++
    " R = lr1.Reduce\n A = lr1.Accept\n E = lr1.Error\n" ++
    Draft.render names definitions ++ Draft.render names body

end BinaryLayout.LR
