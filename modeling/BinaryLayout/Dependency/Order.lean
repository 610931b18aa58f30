import BinaryLayout.Dependency.Cycles

/-!
# The order of fields

The fields of a structure are ordered so that each comes after those that it depends on.  A field
that stands before one of its dependencies is moved to right after them; otherwise the fields
stay in the order in which they were written.
-/

namespace BinaryLayout.Dependency

open IR

def takeReady {α : Type} (ready : α → Bool) : List α → Option (α × List α)
  | [] => none
  | a :: rest =>
    if ready a then some (a, rest)
    else (takeReady ready rest).map fun (found, others) => (found, a :: others)

/-- Put elements in order as they get ready, given those that are done.  An element is the index
of a field and its name. -/
def orderReady (g : Graph) : Nat → Std.HashSet NodeName → List (Nat × NodeName) → List Nat
  | 0, _, _ => []
  | count + 1, done, needed =>
    match takeReady (fun (_, n) => (g.next n).all done.contains) needed with
    | none => []
    | some ((index, n), rest) => index :: orderReady g count (done.insert n) rest

def fieldOrder (g : Graph) (parameters : List RuntimeParameter) (fields : List Field) :
    Checked (List Nat) := do
  let given ← parameters.mapM fun p => nodeOfName p.name
  let names ← fields.mapM fun f => nodeOfName f.name
  let needed := names.mapIdx fun index n => (index, n)
  let order := orderReady g needed.length (Std.HashSet.ofList given) needed
  Failure.ensure (order.length == fields.length)
  return order

def setOrder (p : Program) : Checked (Program × List MessageGroup) := do
  let g ← fieldDependencies p
  let p ← (p.partsOf Node.structure? [.structureBody]).foldlM
    (fun p (v, s) => do
      let t ← Failure.require v.typeDefinition?
      let order ← fieldOrder g t.parameters s.fields
      let s := { s with dependencyOrder := order.map fun (index : Nat) => (index : Int) }
      return p.put v.address (.structureBody s))
    p
  return (p, [])

end BinaryLayout.Dependency
