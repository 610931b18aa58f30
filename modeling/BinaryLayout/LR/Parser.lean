import BinaryLayout.LR.Table
import BinaryLayout.LR.Tree

/-!
# Parsing

A parser is a table with notes on its error states.  It keeps a stack of states and trees: a
shift moves the next token to the stack, a reduction replaces the trees of a right side by one
node.  When a state has no action for the next token the input is rejected, with the note on that
state and terminal if there is one, or else the note on the state.
-/

namespace BinaryLayout.LR

/-- Notes on error states. -/
structure Notes where
  /-- The note on a state and a terminal. -/
  specific : List ((Nat × String) × String) := []
  /-- The note on a state, for terminals without a note of their own. -/
  general : List (Nat × String) := []

/-- A table with notes on its error states. -/
structure Parser where
  table : Table
  notes : Notes := {}

/-- Why an input was rejected. -/
structure ParseError where
  /-- The note on the error. -/
  code : Option String
  /-- How many tokens were read. -/
  index : Nat
  /-- The element that was found; nothing at the end of the input. -/
  found : Option Lexeme
  /-- The state in which it was found. -/
  state : Nat
  /-- The terminals that the state has an action for, in sorted order. -/
  expected : List String

/-- A parse under way: states and trees, the last first, and the rest of the input. -/
structure Configuration where
  stack : List (Nat × Tree)
  rest : List Lexeme
  index : Nat

/-- What a step of a parse comes to. -/
inductive Step where
  | next (c : Configuration)
  | accepted (tree : Tree)
  | rejected (e : ParseError)
  | failed (f : Failure)

namespace Configuration

def state (c : Configuration) : Nat :=
  match c.stack with
  | (s, _) :: _ => s
  | [] => 0

/-- The next terminal, which is the end of the input if nothing is left. -/
def terminal? (c : Configuration) : Option String :=
  match c.rest with
  | l :: _ => l.symbol?
  | [] => some endSymbol

end Configuration

namespace Parser

def row (p : Parser) (state : Nat) : Row :=
  p.table.rows.getD state default

def action? (p : Parser) (c : Configuration) : Option Action :=
  c.terminal?.bind fun t => (p.row c.state).actions[t]?

def note? (p : Parser) (state : Nat) (terminal? : Option String) : Option String :=
  match terminal?.bind fun t => p.notes.specific.lookup (state, t) with
  | some code => some code
  | none => p.notes.general.lookup state

def expected (p : Parser) (state : Nat) : List String :=
  (p.row state).actions.keys.mergeSort fun a b => (compare a b).isLE

def reject (p : Parser) (c : Configuration) : ParseError :=
  ⟨p.note? c.state c.terminal?, c.index, c.rest.head?, c.state, p.expected c.state⟩

/-- Replace the trees of a right side by one node. -/
def reduce (p : Parser) (c : Configuration) (rule : Production) : Step :=
  let size := rule.rhs.length
  let children := ((c.stack.take size).map (·.2)).reverse
  match Location.merge (children.map Tree.location) with
  | .error f => .failed f
  | .ok location =>
    let below := c.stack.drop size
    let state := (Configuration.mk below [] 0).state
    match (p.row state).gotos[rule.lhs]? with
    | some target => .next { c with stack := (target, .node rule children location) :: below }
    | none => .failed .noEntry

def step (p : Parser) (c : Configuration) : Step :=
  match p.action? c with
  | none => .rejected (p.reject c)
  | some (.reduce rule) => p.reduce c rule
  | some .accept =>
    match c.stack with
    | [(_, tree)] => .accepted tree
    | _ => .failed .invariant
  | some (.shift state) =>
    match c.rest with
    | .token t :: rest => .next ⟨(state, .leaf t) :: c.stack, rest, c.index + 1⟩
    | _ => .failed .outOfRange

/-- Take steps until the parse ends.  There is no result if it never does. -/
def run (p : Parser) (c : Configuration) : Option (Checked (Except ParseError Tree)) :=
  match p.step c with
  | .next c => by
    apply run
    · exact p
    · exact c
  | .accepted tree => some (.ok (.ok tree))
  | .rejected e => some (.ok (.error e))
  | .failed f => some (.error f)
partial_fixpoint

def parse (p : Parser) (input : List Lexeme) : Checked (Except ParseError Tree) :=
  (p.run ⟨[], input, 0⟩).getD (.error .exhausted)

def parseTokens (p : Parser) (tokens : List Token) : Checked (Except ParseError Tree) :=
  p.parse (tokens.map .token)

end Parser

end BinaryLayout.LR
