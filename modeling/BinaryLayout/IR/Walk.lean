import Std.Data.HashSet
import BinaryLayout.IR.Address

/-!
# Walking over a program

A walk visits the nodes of some kind from the top down, those before others that stand before
them in `Node.children`.  A pattern of several kinds asks for nodes of the last kind that lie
inside a node of the kind before it, and so on.  Below nodes of the kinds to skip nothing is
visited.

What can be below a node is known from the schema, so a walk leaves out the branches that cannot
hold what it looks for.
-/

namespace BinaryLayout.IR

def Kind.below (k : Kind) : List Kind :=
  (k.fields.filterMap FieldSpec.kind?).eraseDups

def Kind.spread (kinds : List Kind) : List Kind :=
  (kinds ++ kinds.flatMap Kind.below).eraseDups

def Kind.inside (k : Kind) : List Kind :=
  (List.range Kind.all.length).foldl (fun kinds _ => Kind.spread kinds) [k]

def insideTable : Array (List Kind) :=
  (Kind.all.map Kind.inside).toArray

def Kind.canHold (k target : Kind) : Bool :=
  (insideTable.getD k.ctorIdx []).contains target

/-- A node that was visited. -/
structure Visit where
  /-- The way to the node, the last step first. -/
  trail : List Step
  node : Node
  /-- The nodes around it, the nearest first. -/
  ancestors : List Node

namespace Visit

/-- The way from the top to the node. -/
def address (v : Visit) : Address :=
  v.trail.reverse

def nearest {α : Type} (project : Node → Option α) (v : Visit) : Option α :=
  (v.node :: v.ancestors).findSome? project

def typeDefinition? (v : Visit) : Option TypeDefinition :=
  v.nearest Node.typeDefinition?

def field? (v : Visit) : Option Field :=
  v.nearest Node.field?

def module? (v : Visit) : Option Module :=
  v.nearest Node.module?

def file (v : Visit) : String :=
  (v.module?.bind (·.fileName)).getD ""

end Visit

def remaining (pattern : List Kind) (k : Kind) : List Kind :=
  match pattern with
  | first :: second :: rest => if k = first then second :: rest else pattern
  | _ => pattern

def isTarget (pattern : List Kind) (k : Kind) : Bool :=
  match pattern with
  | [target] => k == target
  | _ => false

def Node.walk (skip : List Kind) (pattern : List Kind) (trail : List Step)
    (ancestors : List Node) (n : Node) : List Visit :=
  let here := if isTarget pattern n.kind then [⟨trail, n, ancestors⟩] else []
  let pattern := remaining pattern n.kind
  if skip.contains n.kind then here
  else
    here ++ n.children.attach.flatMap fun ⟨(step, child), _⟩ =>
      if child.kind.canHold (pattern.headD .program) then
        Node.walk skip pattern (step :: trail) (n :: ancestors) child
      else []
termination_by sizeOf n
decreasing_by
  rename_i member _
  exact Node.sizeOf_lt_of_mem_children n _ member

def Program.visits (p : Program) (pattern : List Kind) (skip : List Kind := []) : List Visit :=
  (Node.program p).walk skip pattern [] []

namespace Program

def partsOf {α : Type} (p : Program) (project : Node → Option α) (pattern : List Kind)
    (skip : List Kind := []) : List (Visit × α) :=
  (p.visits pattern skip).filterMap fun v => (project v.node).map (v, ·)

end Program

end BinaryLayout.IR
