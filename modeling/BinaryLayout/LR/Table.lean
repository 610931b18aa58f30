import BinaryLayout.LR.Automaton
import BinaryLayout.Text.Integer

/-!
# Parsing tables

The table of a grammar says what to do in each state when a terminal comes next, and where to go
when a nonterminal has been completed.  A state and a terminal for which the automaton allows two
different actions are a conflict.
-/

namespace BinaryLayout.LR

/-- What to do with the next terminal. -/
inductive Action where
  /-- Read the terminal and go to a state. -/
  | shift (state : Nat)
  | reduce (rule : Production)
  | accept
deriving DecidableEq

namespace Action

def text : Action → String
  | .shift state => "shift " ++ Text.decimal state
  | .reduce rule => "reduce " ++ rule.text
  | .accept => "accept"

end Action

/-- The actions and successors of one state. -/
structure Row where
  actions : Std.HashMap String Action
  gotos : Std.HashMap String Nat
deriving Inhabited

structure Table where
  rows : Array Row
  /-- The productions, the seed last. -/
  productions : List Production
  /-- States and terminals with more than one action. -/
  conflicts : List (Nat × String)

namespace Blueprint

/-- The action that an item asks for when all of its production has been read. -/
def completion? (b : Blueprint) (c : Cursor) : Option (String × Action) :=
  match b.rules[c.rule]? with
  | none => none
  | some p =>
    if c.dot < p.rhs.length then none
    else if p = b.grammar.seed then
      if c.lookahead = endSymbol then some (endSymbol, .accept) else none
    else some (c.lookahead, .reduce p)

def proposals (b : Blueprint) (s : State) : List (String × Action) :=
  s.items.filterMap b.completion? ++
    (s.edges.filter fun (symbol, _) => !b.firsts.contains symbol).map
      fun (symbol, state) => (symbol, .shift state)

/-- The first action proposed for each terminal, and the terminals for which there are two. -/
def settle : List (String × Action) → Std.HashMap String Action → List String →
    Std.HashMap String Action × List String
  | [], actions, conflicts => (actions, conflicts)
  | (terminal, action) :: rest, actions, conflicts =>
    match actions[terminal]? with
    | none => settle rest (actions.insert terminal action) conflicts
    | some settled =>
      if settled = action then settle rest actions conflicts
      else settle rest actions (terminal :: conflicts)

def row (b : Blueprint) (s : State) : Row × List String :=
  let (actions, conflicts) := settle (b.proposals s) ∅ []
  let gotos := s.edges.filter fun (symbol, _) => b.firsts.contains symbol
  (⟨actions, Std.HashMap.ofList gotos⟩, conflicts.eraseDups)

def table (b : Blueprint) (states : Array State) : Table :=
  let rows := states.map b.row
  let conflicts := (rows.toList.zipIdx.flatMap fun ((_, terminals), state) =>
    terminals.map fun terminal => (state, terminal))
  ⟨rows.map (·.1), b.grammar.productions, conflicts⟩

end Blueprint

/-- The parsing table of a grammar.  The end of the input has to be a terminal of it. -/
def Grammar.table (g : Grammar) : Checked Table :=
  if g.nonterminalSet.contains endSymbol then .error .noEntry
  else
    let b := Blueprint.ofGrammar g
    .ok (b.table b.states)

end BinaryLayout.LR
