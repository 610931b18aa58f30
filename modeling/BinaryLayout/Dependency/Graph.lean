import Std.Data.HashMap
import Std.Data.HashSet
import BinaryLayout.Failure

/-!
# Graphs and their cycles

A graph says for each node which others it leads to.  `Graph.cycles` gives the groups of nodes
that can all be reached from each other, of those groups that hold a way from a node back to
itself.
-/

namespace BinaryLayout.Dependency

/-- A path of names: a file and what leads from it to an object. -/
abbrev NodeName := List String

/-- A directed graph, its nodes in the order in which they were added. -/
structure Graph where
  nodes : List NodeName := []
  edges : Std.HashMap NodeName (List NodeName) := ∅

namespace Graph

def contains (g : Graph) (n : NodeName) : Bool :=
  g.edges.contains n

def next (g : Graph) (n : NodeName) : List NodeName :=
  g.edges.getD n []

def addNode (g : Graph) (n : NodeName) : Graph :=
  if g.contains n then g else ⟨g.nodes ++ [n], g.edges.insert n []⟩

def addEdge (g : Graph) (source target : NodeName) : Graph :=
  let g := g.addNode source
  ⟨g.nodes, g.edges.insert source (g.next source ++ [target])⟩

def edgeCount (g : Graph) : Nat :=
  (g.nodes.map fun n => (g.next n).length).foldr (· + ·) 0

/-- Whether every edge leads to a node. -/
def isClosed (g : Graph) : Bool :=
  g.nodes.all fun n => (g.next n).all g.contains

/-- The nodes that were seen and those that can be reached from the ones still to visit. -/
def explore (g : Graph) : Nat → List NodeName → Std.HashSet NodeName → Std.HashSet NodeName
  | 0, _, seen => seen
  | _, [], seen => seen
  | fuel + 1, n :: rest, seen =>
    if seen.contains n then explore g fuel rest seen
    else explore g fuel (g.next n ++ rest) (seen.insert n)

/-- The nodes that can be reached from a node by one edge or more.  Every edge is followed at
most once after the first ones, so their number bounds the visits. -/
def reachable (g : Graph) (n : NodeName) : Std.HashSet NodeName :=
  g.explore (2 * g.edgeCount + 1) (g.next n) ∅

/-- The order of names: by the first part that differs. -/
def pathLE (a b : NodeName) : Bool :=
  !decide (b < a)

def component (reach : Std.HashMap NodeName (Std.HashSet NodeName)) (n : NodeName)
    (nodes : List NodeName) : List NodeName :=
  nodes.filter fun m => (reach.getD n ∅).contains m && (reach.getD m ∅).contains n

def components (reach : Std.HashMap NodeName (Std.HashSet NodeName)) (nodes : List NodeName) :
    Nat → List NodeName → List (List NodeName)
  | 0, _ => []
  | _, [] => []
  | fuel + 1, n :: rest =>
    let group := component reach n nodes
    group :: components reach nodes fuel (rest.filter fun m => !group.contains m)

/-- The groups of nodes that lie on cycles together.  Both the groups and the nodes in them are
in the order of names.  An edge to something that is no node is a failure. -/
def cycles (g : Graph) : Checked (List (List NodeName)) := do
  if !g.isClosed then throw .noEntry
  let reach := Std.HashMap.ofList (g.nodes.map fun n => (n, g.reachable n))
  let cyclic := (g.nodes.filter fun n => (reach.getD n ∅).contains n).mergeSort pathLE
  return components reach cyclic cyclic.length cyclic

end Graph

end BinaryLayout.Dependency
