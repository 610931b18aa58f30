import BinaryLayout.Scope.Resolve

/-!
# Resolving members of fields

In a reference such as `a.b.c` every name after the first is a field of the type of the field
before it.  A virtual field that is nothing but a reference to another field has the members of
that field.
-/

namespace BinaryLayout.Scope

open IR

def memberOfArray (file : String) (location : Option Location) (name : String) : MessageGroup :=
  [.error file location ("Cannot access member of array '" ++ name ++ "'")]

def memberOfScalar (file : String) (location : Option Location) (name : String) : MessageGroup :=
  [.error file location ("Cannot access member of noncomposite field '" ++ name ++ "'")]

def firstName (r : Reference) : Checked Word :=
  Failure.element r.sourceName 0

def asField : Object → Checked Field
  | .field f => .ok f
  | _ => .error .unset

def aliasTarget (f : Field) : Checked (Option FieldReference) := do
  match ← Failure.require f.readTransform with
  | .fieldReference r _ => return some r
  | _ => return none

def memberType (file : String) (previous : Reference) (f : Field) :
    Checked (Except MessageGroup CanonicalName) := do
  match ← Failure.require f.type with
  | .array _ _ _ _ _ =>
    return .error
      (memberOfArray file previous.location ((← firstName previous).text.getD ""))
  | .unset _ _ => throw .invariant
  | .atomic atom _ _ =>
    match (← Failure.require atom.reference).canonicalName with
    | some name => return .ok name
    | none => throw .illTyped

mutual

/-- Resolve the members in the reference to a field at an address.  The depth bounds the chains
of virtual fields that refer to each other. -/
def resolveMembers : Nat → Address → String → ResolveM Unit
  | 0, _, _ => throw .exhausted
  | depth + 1, address, file => do
    match ((← get).at? address).bind Node.fieldReference? with
    | none => throw .unset
    | some r =>
      if (← Failure.lastOf r.path).canonicalName.isSome then return
      let head ← Failure.element r.path 0
      match ← (← get).find? (← Failure.require head.canonicalName) with
      | none => if r.path.tail.isEmpty then return else throw .unset
      | some found => resolveTail depth address file 1 found head r.path.tail
termination_by depth => (depth, 0, 0)

def resolveTail : Nat → Address → String → Nat → Found → Reference → List Reference →
    ResolveM Unit
  | _, _, _, _, _, _, [] => return
  | depth, address, file, index, found, previous, r :: rest => do
    match ← physicalField depth file previous found.object with
    | none => return
    | some f =>
      match ← memberType file previous f with
      | .error group => reportGroup group
      | .ok type =>
        let word ← firstName r
        let name := nested type (word.text.getD "")
        match ← (← get).find? name with
        | none => reportGroup (missingName file word.location (word.text.getD ""))
        | some next =>
          let resolved := { r with canonicalName := some name }
          modify fun p => p.put (address ++ [⟨"path", index⟩]) (.reference resolved)
          resolveTail depth address file (index + 1) next resolved rest
termination_by depth _ _ _ _ _ rest => (depth, 2, rest.length)

/-- The physical field that a chain of references leads to.  There is none if the chain cannot be
resolved, or ends in something without members, which is reported. -/
def physicalField : Nat → String → Reference → Object → ResolveM (Option Field)
  | depth, file, previous, object => do
    let f ← asField object
    if !f.isVirtual then return some f
    match ← aliasTarget f with
    | none =>
      reportGroup (memberOfScalar file previous.location ((← firstName previous).text.getD ""))
      return none
    | some _ => followAlias depth file previous f
termination_by depth => (depth, 1, 0)

def followAlias : Nat → String → Reference → Field → ResolveM (Option Field)
  | 0, _, _, _ => throw .exhausted
  | depth + 1, file, previous, f => do
    let name ← Failure.require (← Failure.require f.name).canonicalName
    let own ← (← get).find name
    let address := own.address ++ [⟨"read_transform", 0⟩, ⟨"field_reference", 0⟩]
    let before ← getThe (List MessageGroup)
    resolveMembers depth address name.file
    set before
    match ((← get).at? address).bind Node.fieldReference? with
    | none => throw .unset
    | some r =>
      match (← Failure.lastOf r.path).canonicalName with
      | none => return none
      | some target =>
        physicalField depth file previous (← (← get).find target).object
termination_by depth => (depth, 0, 0)

end

def fieldCount (p : Program) : Nat :=
  (p.visits [.field]).length

def resolveFieldReferences (p : Program) : Checked (Program × List MessageGroup) := do
  let depth := 2 * fieldCount p + 2
  let visits := p.visits [.fieldReference]
  let (((), p), groups) ←
    ((visits.forM fun v => resolveMembers depth v.address v.file : ResolveM Unit).run p).run []
  return (p, groups)

end BinaryLayout.Scope
