import Std.Data.HashMap
import Std.Data.HashSet
import BinaryLayout.LR.Production

/-!
# Grammars and their first terminals

A grammar is a start symbol and productions, to which the seed production `S' -> start` is added.
A symbol is a nonterminal if it stands on the left of a production, and a terminal otherwise; the
end of the input is the terminal `$`.

`Grammar.firsts` gives, for each nonterminal, the terminals that can begin what it derives, and
says whether it derives the empty sequence.
-/

namespace BinaryLayout.LR

def seedSymbol : String := "S'"

/-- The terminal that stands after the last symbol of the input. -/
def endSymbol : String := "$"

/-- A context-free grammar. -/
structure Grammar where
  /-- The symbol that the input as a whole must match. -/
  start : String
  /-- The productions, without the seed. -/
  rules : List Production

/-- What a sequence of symbols can begin with: a terminal, or nothing at all. -/
abbrev FirstSet := List (Option String)

abbrev Firsts := Std.HashMap String FirstSet

namespace Grammar

def seed (g : Grammar) : Production :=
  ⟨seedSymbol, [g.start]⟩

def productions (g : Grammar) : List Production :=
  g.rules ++ [g.seed]

/-- The symbols on the left sides, in order of appearance. -/
def nonterminals (g : Grammar) : List String :=
  (g.productions.map (·.lhs)).eraseDups

def nonterminalSet (g : Grammar) : Std.HashSet String :=
  Std.HashSet.ofList (g.productions.map (·.lhs))

def symbols (g : Grammar) : List String :=
  (endSymbol :: g.productions.flatMap fun p => p.lhs :: p.rhs).eraseDups

/-- The symbols that stand on no left side, in order of appearance. -/
def terminals (g : Grammar) : List String :=
  let nonterminal := g.nonterminalSet
  g.symbols.filter fun s => !nonterminal.contains s

end Grammar

/-- What a sequence of symbols can begin with, when `firsts` holds that of the nonterminals.  A
symbol without an entry is a terminal; the empty text is never counted. -/
def firstOf (firsts : Firsts) : List String → FirstSet
  | [] => [none]
  | symbol :: rest =>
    match firsts[symbol]? with
    | none => if symbol = "" then [] else [some symbol]
    | some set =>
      if set.contains none then set.filter Option.isSome ++ firstOf firsts rest
      else set

def firstTerminals (firsts : Firsts) (sequence : List String) (lookahead : String) :
    List String :=
  ((firstOf firsts (sequence ++ [lookahead])).filterMap id).eraseDups

/-- Add to the entry of the left side all that the right side can begin with. -/
def addFirsts (firsts : Firsts) (p : Production) : Firsts :=
  let known := firsts.getD p.lhs []
  let new := (firstOf firsts p.rhs).eraseDups.filter fun f => !known.contains f
  if new.isEmpty then firsts else firsts.insert p.lhs (known ++ new)

def Firsts.size (firsts : Firsts) : Nat :=
  firsts.fold (fun n _ set => n + set.length) 0

def saturateFirsts (productions : List Production) : Nat → Firsts → Firsts
  | 0, firsts => firsts
  | rounds + 1, firsts =>
    let next := productions.foldl addFirsts firsts
    if Firsts.size next = Firsts.size firsts then firsts
    else saturateFirsts productions rounds next

/-- The first sets of all nonterminals.  Every round but the last adds an entry, so there are
fewer rounds than pairs of a nonterminal and a terminal or the empty sequence. -/
def Grammar.firsts (g : Grammar) : Firsts :=
  let empty : Firsts := Std.HashMap.ofList (g.nonterminals.map fun n => (n, []))
  saturateFirsts g.productions (g.nonterminals.length * (g.terminals.length + 1) + 1) empty

end BinaryLayout.LR
