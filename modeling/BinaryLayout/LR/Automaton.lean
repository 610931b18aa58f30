import BinaryLayout.LR.Item

/-!
# The automaton of viable prefixes

A state of the automaton is the set of items that may be active after some sequence of symbols
has been read.  It is given by its *kernel*, the items with something before the dot: the others
are those that the kernel leads to, the *closure* of it.

Many kernels share items.  So the closure of a kernel is put together from those of its items,
which are remembered: a search that comes to an item whose closure is known takes it over.

States are numbered in the order in which they are found: state zero is the start, and the
successors of a state are found in the order of the symbols that lead to them.
-/

namespace BinaryLayout.LR

/-- An item whose production is given by its number. -/
structure Cursor where
  rule : Nat
  dot : Nat
  lookahead : String
deriving DecidableEq, Hashable

def Cursor.order (a b : Cursor) : Ordering :=
  (compare a.rule b.rule).then ((compare a.dot b.dot).then (compare a.lookahead b.lookahead))

/-- What the construction of an automaton looks up again and again. -/
structure Blueprint where
  grammar : Grammar
  /-- The distinct productions by number; the last one is the seed. -/
  rules : Array Production
  /-- The numbers of the productions of each nonterminal. -/
  byLhs : Std.HashMap String (List Nat)
  firsts : Firsts
  /-- How many items there are. -/
  itemCount : Nat

namespace Blueprint

/-- The number of each production under its left side, in ascending order. -/
def indexByLhs (rules : List Production) : Std.HashMap String (List Nat) :=
  (rules.zipIdx.reverse).foldl
    (fun index (p, number) => index.insert p.lhs (number :: index.getD p.lhs [])) ∅

def ofGrammar (g : Grammar) : Blueprint :=
  let rules := (g.productions.reverse.eraseDups).reverse
  let itemCount := rules.foldr (fun p n => p.rhs.length + 1 + n) 0 * g.terminals.length
  ⟨g, rules.toArray, indexByLhs rules, g.firsts, itemCount⟩

/-- The right side of a production given by its number. -/
def rhs (b : Blueprint) (rule : Nat) : List String :=
  match b.rules[rule]? with
  | some p => p.rhs
  | none => []

def next? (b : Blueprint) (c : Cursor) : Option String :=
  (b.rhs c.rule)[c.dot]?

def item? (b : Blueprint) (c : Cursor) : Option Item :=
  b.rules[c.rule]?.map fun p => ⟨p, c.dot, c.lookahead⟩

/-- The items that an item leads to at once: all productions of its next symbol, not yet begun,
with whatever can begin the rest. -/
def entailed (b : Blueprint) (c : Cursor) : List Cursor :=
  match (b.rhs c.rule).drop c.dot with
  | [] => []
  | symbol :: rest =>
    match b.byLhs.getD symbol [] with
    | [] => []
    | rules =>
      (firstTerminals b.firsts rest c.lookahead).flatMap fun t => rules.map (⟨·, 0, t⟩)

end Blueprint

/-- Add the elements of a list that have not been seen; they come out in reverse. -/
def addUnseen (seen : Std.HashSet Cursor) (fresh : List Cursor) :
    List Cursor → Std.HashSet Cursor × List Cursor
  | [] => (seen, fresh)
  | c :: rest =>
    if seen.contains c then addUnseen seen fresh rest
    else addUnseen (seen.insert c) (c :: fresh) rest

/-- What has been worked out: the items that an item leads to at once, and whole closures. -/
structure Closures where
  direct : Std.HashMap Cursor (List Cursor) := ∅
  whole : Std.HashMap Cursor (List Cursor) := ∅

namespace Blueprint

def recallEntailed (b : Blueprint) (known : Closures) (c : Cursor) : List Cursor × Closures :=
  match known.direct[c]? with
  | some items => (items, known)
  | none =>
    let items := b.entailed c
    (items, { known with direct := known.direct.insert c items })

/-- Search for all that a frontier of items already marked as seen leads to.  A closure that is
known is taken over, and none of its items enters the frontier.  Every item enters the frontier
once at most, so as much fuel as there are items is enough. -/
def search (b : Blueprint) :
    Nat → List Cursor → Std.HashSet Cursor → List Cursor → Closures → List Cursor × Closures
  | 0, _, _, found, known => (found, known)
  | _ + 1, [], _, found, known => (found, known)
  | fuel + 1, c :: frontier, seen, found, known =>
    match known.whole[c]? with
    | some closure =>
      let (seen, found) := addUnseen seen (c :: found) closure
      search b fuel frontier seen found known
    | none =>
      let (items, known) := b.recallEntailed known c
      let (seen, fresh) := addUnseen seen [] items
      search b fuel (fresh ++ frontier) seen (c :: found) known

/-- Work out the closures of the items on a stack, and then those of all items in them, the last
one found first. -/
def fill (b : Blueprint) : Nat → List Cursor → Closures → Closures
  | 0, _, known => known
  | _ + 1, [], known => known
  | fuel + 1, c :: stack, known =>
    if known.whole.contains c then fill b fuel stack known
    else
      let (found, known) := b.search b.itemCount [c] {c} [] known
      fill b fuel (found ++ stack) { known with whole := known.whole.insert c found }

/-- The closure of an item.  Each closure is worked out once, and no closure has more items than
there are. -/
def closureOf (b : Blueprint) (known : Closures) (c : Cursor) : List Cursor × Closures :=
  let known := b.fill (b.itemCount * b.itemCount + 1) [c] known
  (known.whole.getD c [], known)

def closures (b : Blueprint) :
    List Cursor → Std.HashSet Cursor → List Cursor → Closures → List Cursor × Closures
  | [], _, found, known => (found, known)
  | c :: kernel, seen, found, known =>
    let (closure, known) := b.closureOf known c
    let (seen, found) := addUnseen seen found closure
    closures b kernel seen found known

def closure (b : Blueprint) (kernel : List Cursor) : List Cursor :=
  (b.closures kernel ∅ [] {}).1

def startKernel (b : Blueprint) : List Cursor :=
  [⟨b.rules.size - 1, 0, endSymbol⟩]

end Blueprint

def dedupSorted {α : Type} [BEq α] : List α → List α
  | [] => []
  | [a] => [a]
  | a :: b :: rest => if a == b then dedupSorted (b :: rest) else a :: dedupSorted (b :: rest)

namespace Blueprint

def moves (b : Blueprint) (items : List Cursor) : Std.HashMap String (List Cursor) :=
  items.foldl
    (fun table c =>
      match b.next? c with
      | some symbol =>
        table.insert symbol (⟨c.rule, c.dot + 1, c.lookahead⟩ :: table.getD symbol [])
      | none => table) ∅

/-- The kernels of the successors of a state, in the order of the symbols that lead to them. -/
def successors (b : Blueprint) (items : List Cursor) : List (String × List Cursor) :=
  let groups := (b.moves items).toList.mergeSort fun x y => (compare x.1 y.1).isLE
  groups.map fun (symbol, kernel) =>
    (symbol, dedupSorted (kernel.mergeSort fun x y => (x.order y).isLE))

end Blueprint

structure State where
  /-- The items with something before the dot. -/
  kernel : List Cursor
  /-- The closure of the kernel. -/
  items : List Cursor
  /-- The successors by symbol, in the order of the symbols. -/
  edges : List (String × Nat)

/-- States under construction: kernels by number, their numbers, and the states already done. -/
structure Survey where
  kernels : Array (List Cursor)
  numbers : Std.HashMap (List Cursor) Nat
  states : Array State

namespace Survey

def number (s : Survey) (kernel : List Cursor) : Survey × Nat :=
  match s.numbers[kernel]? with
  | some n => (s, n)
  | none =>
    let n := s.kernels.size
    (⟨s.kernels.push kernel, s.numbers.insert kernel n, s.states⟩, n)

def numberAll (s : Survey) (edges : List (String × Nat)) :
    List (String × List Cursor) → Survey × List (String × Nat)
  | [] => (s, edges.reverse)
  | (symbol, kernel) :: rest =>
    let (s, n) := s.number kernel
    numberAll s ((symbol, n) :: edges) rest

/-- Work out the states whose kernels are known, in the order of their numbers. -/
def explore (b : Blueprint) : Nat → Closures → Survey → Survey
  | 0, _, s => s
  | fuel + 1, known, s =>
    match s.kernels[s.states.size]? with
    | none => s
    | some kernel =>
      let (items, known) := b.closures kernel ∅ [] known
      let (s, edges) := s.numberAll [] (b.successors items)
      explore b fuel known { s with states := s.states.push ⟨kernel, items, edges⟩ }

end Survey

namespace Blueprint

/-- The states of the automaton by number.  A state is a set of items, so there are no more
states than such sets. -/
def states (b : Blueprint) : Array State :=
  let start := b.startKernel
  let survey : Survey := ⟨#[start], Std.HashMap.ofList [(start, 0)], #[]⟩
  (Survey.explore b (Nat.pow 2 b.itemCount) {} survey).states

end Blueprint

end BinaryLayout.LR
