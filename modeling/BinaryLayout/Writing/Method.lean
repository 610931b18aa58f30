import BinaryLayout.Writing.Invert

/-!
# How fields are written

A physical field is written where it lies.  A virtual field that is nothing but another field is
written by writing that one; one whose expression can be solved for a field is written by writing
what the solution gives.  All others can only be read.
-/

namespace BinaryLayout.Writing

open IR Bounds

def isReadOnly (f : Field) : Checked Bool := do
  match ← Failure.require f.writeMethod with
  | .readOnly value => return value
  | _ => return false

def setMethod (address : Address) (f : Field) (m : WriteMethod) : BoundsM Unit :=
  modify fun p => p.put address (.field { f with writeMethod := some m })

mutual

/-- Find how the field at an address is written.  The depth bounds the chains of virtual
fields. -/
def inferMethod (depth : Nat) (address : Address) : BoundsM Unit := do
  match ((← get).at? address).bind Node.field? with
  | none => throw .unset
  | some f =>
    if f.writeMethod.isSome then return
    if !f.isVirtual then setMethod address f (.physical true)
    else
      let requirement ← attribute? f.attributes "requires"
      match f.readTransform, requirement with
      | some (.fieldReference r _), none =>
        if ← isWritable depth r then setMethod address f (.alias r)
        else setMethod address f (.readOnly true)
      | none, _ => throw .unset
      | some e, _ =>
        match ← invert depth e with
        | none => setMethod address f (.readOnly true)
        | some (r, body) =>
          if ← isWritable depth r then setMethod address f (.transform ⟨some body, some r⟩)
          else setMethod address f (.readOnly true)
termination_by (depth, 1)

def isWritable (depth : Nat) (r : FieldReference) : BoundsM Bool := do
  let found ← (← get).resolve (← Failure.lastOf r.path)
  match depth, found.object with
  | 0, _ => throw .exhausted
  | depth + 1, .field _ =>
    inferMethod depth found.address
    match ((← get).at? found.address).bind Node.field? with
    | some f => return !(← isReadOnly f)
    | none => throw .unset
  | _, _ => return false
termination_by (depth, 0)

end

def setWriteMethods (p : Program) : Checked (Program × List MessageGroup) := do
  let depth := chainDepth p
  let work : BoundsM Unit := do
    for v in p.visits [.field] do inferMethod depth v.address
  let ((), p) ← work.run p
  return (p, [])

end BinaryLayout.Writing
