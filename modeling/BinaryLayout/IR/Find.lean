import BinaryLayout.IR.Address
import BinaryLayout.IR.Property

/-!
# Finding objects by name

An absolute name leads from a file to a type in it, and on to a parameter, field, value or type
inside that.  The first object on the way that has the name counts.
-/

namespace BinaryLayout.IR

/-- Something that has an absolute name. -/
inductive Object where
  | moduleFile (m : Module)
  | definition (t : TypeDefinition)
  | field (f : Field)
  | enumValue (v : EnumValue)
  | parameter (p : RuntimeParameter)

namespace Object

def node : Object → Node
  | .moduleFile m => .moduleFile m
  | .definition t => .typeDefinition t
  | .field f => .field f
  | .enumValue v => .enumValue v
  | .parameter p => .parameter p

end Object

/-- An object and the way to it. -/
structure Found where
  address : Address
  object : Object

def nameText (n : Option NameDefinition) : Checked (Option String) := do
  requiredText (← Failure.require n).name

def findNamed {α : Type} (nameOf : α → Checked (Option String)) (name : String) :
    Nat → List α → Checked (Option (Nat × α))
  | _, [] => return none
  | index, a :: rest => do
    if (← nameOf a) == some name then return some (index, a)
    else findNamed nameOf name (index + 1) rest

def RuntimeParameter.nameText? (p : RuntimeParameter) : Option String :=
  (p.name.bind (·.name)).bind (·.text)

def findParameter (trail : List Step) (t : TypeDefinition) (name : String) :
    Checked (Option Found) := do
  let found ← findNamed (fun p => return some (p.nameText?.getD "")) name 0 t.parameters
  return found.map fun (index, p) =>
    ⟨(⟨"runtime_parameter", index⟩ :: trail).reverse, .parameter p⟩

/-- The field or value of a type that a path of names leads to. -/
def findMember (trail : List Step) (t : TypeDefinition) (name : String) (rest : List String) :
    Checked (Option Found) :=
  match t.body with
  | .record s => do
    match ← findNamed (fun f => nameText f.name) name 0 s.fields with
    | some (index, f) =>
      if rest.isEmpty then
        return some ⟨(⟨"field", index⟩ :: ⟨"structure", 0⟩ :: trail).reverse, .field f⟩
      else return none
    | none => return none
  | .enumeration e => do
    if !rest.isEmpty then return none
    match ← findNamed (fun v => nameText v.name) name 0 e.values with
    | some (index, v) =>
      return some ⟨(⟨"value", index⟩ :: ⟨"enumeration", 0⟩ :: trail).reverse, .enumValue v⟩
    | none => return none
  | _ => return none

mutual

def findInType (trail : List Step) (t : TypeDefinition) : List String → Checked (Option Found)
  | [] => return some ⟨trail.reverse, .definition t⟩
  | name :: rest => do
    let parameter ← if rest.isEmpty then findParameter trail t name else pure none
    match parameter with
    | some found => return some found
    | none =>
      match ← findMember trail t name rest with
      | some found => return some found
      | none => findInTypes trail "subtype" t.subtypes name rest
termination_by path => 2 * path.length

def findInTypes (trail : List Step) (list : String) (types : List TypeDefinition)
    (name : String) (rest : List String) : Checked (Option Found) := do
  match ← findNamed (fun t => nameText t.name) name 0 types with
  | some (index, t) => findInType (⟨list, index⟩ :: trail) t rest
  | none => return none
termination_by 2 * rest.length + 1

end

namespace Program

def findModule (file : String) : Nat → List Module → Option (Nat × Module)
  | _, [] => none
  | index, m :: rest =>
    if m.fileName == some file then some (index, m) else findModule file (index + 1) rest

/-- The object that a path leads to: the name of a file, and names in it. -/
def findPath (p : Program) : List String → Checked (Option Found)
  | [] => if p.modules.isEmpty then return none else .error .outOfRange
  | file :: names =>
    match findModule file 0 p.modules with
    | none => return none
    | some (index, m) =>
      let trail : List Step := [⟨"module", index⟩]
      match names with
      | [] => return some ⟨trail, .moduleFile m⟩
      | name :: rest => findInTypes trail "type" m.types name rest

def find? (p : Program) (name : CanonicalName) : Checked (Option Found) :=
  p.findPath (name.file :: name.path)

def find (p : Program) (name : CanonicalName) : Checked Found := do
  match ← p.find? name with
  | some found => return found
  | none => throw .invariant

/-- The object that the name of another one is defined in. -/
def findParentOf (p : Program) (path : List String) : Checked Found := do
  match ← p.findPath path.dropLast with
  | some found => return found
  | none => throw .invariant

def findParent (p : Program) (name : CanonicalName) : Checked Found :=
  p.findParentOf (name.file :: name.path)

def resolve (p : Program) (r : Reference) : Checked Found := do
  p.find (← Failure.require r.canonicalName)

/-- The object that a reference leads to; both have to exist. -/
def resolve? (p : Program) (r : Option Reference) : Checked Found :=
  match r with
  | some r => p.resolve r
  | none => .error (if p.modules.isEmpty then .invariant else .illTyped)

end Program

namespace TypeSpec

def base : TypeSpec → Checked TypeSpec
  | .array base _ _ _ _ =>
    match base with
    | some t => t.base
    | none => .error .unset
  | .atomic atom size location => return .atomic atom size location
  | .unset _ _ => .error .invariant

/-- The number of elements in all dimensions of an array and the type of the innermost elements,
if the number is known. -/
def constantElements (multiplier : Int) : TypeSpec → Checked (Option (Int × TypeSpec))
  | .array base size _ sizeInBits _ =>
    match size with
    | .automatic _ => return none
    | .unset => .error .invariant
    | .count e => do
      match ← e.constantValue? with
      | none => return none
      | some count =>
        Failure.ensure sizeInBits.isNone
        match base with
        | some t => t.constantElements (multiplier * count.toInt)
        | none => .error .unset
  | t => return some (multiplier, t)

end TypeSpec

def Object.attributes : Object → Checked (List Attribute)
  | .moduleFile m => return m.attributes
  | .definition t => return t.attributes
  | .field f => return f.attributes
  | .enumValue v => return v.attributes
  | .parameter _ => .error .unset

def sizeOfElements (multiplier : Int) (size : Option Expression) : Checked Int := do
  match size with
  | none => throw .illTyped
  | some e =>
    match ← e.constantValue? with
    | some bits => return bits.toInt * multiplier
    | none => throw .illTyped

def Program.fixedSize (p : Program) (t : TypeSpec) : Checked (Option Int) := do
  match ← t.constantElements 1 with
  | none => return none
  | some (multiplier, .atomic _ (some size) _) =>
    return some (← sizeOfElements multiplier (some size))
  | some (multiplier, .atomic atom none _) =>
    let found ← p.resolve? atom.reference
    match ← attribute? (← found.object.attributes) "fixed_size_in_bits" with
    | none => return none
    | some value => return some (← sizeOfElements multiplier value.expression?)
  | some _ => throw .invariant

end BinaryLayout.IR
