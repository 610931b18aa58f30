import BinaryLayout.Attributes.Known
import BinaryLayout.IR.Find

/-!
# Attributes that follow from others

A definition need not set every attribute.  The size of a structure follows from its fields, the
byte order of a field from the default around it, and an enumeration is as wide as can be unless
it says otherwise.
-/

namespace BinaryLayout.Attributes

open IR

def made (name : String) (value : AttributeValue) (location : Option Location) : Attribute :=
  { name := some ⟨some name, location⟩, value := some value, location := location }

def integerAttribute (name : String) (value : Int) (location : Option Location) : Attribute :=
  let known : Option Numeral := some (.int value)
  let type : ExpressionType := .integer ⟨some .infinity, known, known, known⟩
  made name (.expression (.constant ⟨known, location⟩ ⟨some type, location⟩) location) location

def booleanAttribute (name : String) (value : Bool) (location : Option Location) : Attribute :=
  let type : ExpressionType := .boolean ⟨some value⟩
  made name (.expression (.booleanConstant ⟨some value, location⟩ ⟨some type, location⟩) location)
    location

def stringAttribute (name value : String) (location : Option Location) : Attribute :=
  made name (.string ⟨some value, location⟩ location) location

def knownValue (e : Option Expression) : Checked (Option Constant) :=
  match e with
  | some e => e.constantValue?
  | none => return none

def lastEnd (size : Int) : List Field → Checked (Option Int)
  | [] => return some size
  | f :: rest => do
    match f.placement with
    | none => lastEnd size rest
    | some l =>
      let start ← knownValue l.start
      let length ← knownValue l.size
      match start, length with
      | some start, some length => lastEnd (max size (start.toInt + length.toInt)) rest
      | _, _ => return none

def sizeOfStructure (s : Structure) (unit : Option AddressableUnit) : Checked (Option Int) := do
  match ← lastEnd 0 s.fields with
  | none => return none
  | some size =>
    match unit with
    | some unit => return some (size * unit.bits)
    | none => throw .illTyped

/-- Whether the byte order of a field matters: the type in it is counted in another unit than the
structure around it. -/
def needsByteOrder (p : Program) (t : TypeDefinition) (f : Field) : Checked Bool := do
  if f.isVirtual then return false
  let base ← (← Failure.require f.type).base
  let atom ← Failure.require base.atom?
  match (← Failure.require atom.reference).canonicalName with
  | none => throw .illTyped
  | some name =>
    match (← p.find name).object with
    | .definition d =>
      Failure.ensure (d.unit != some .none)
      return d.unit != t.unit
    | _ => throw .unset

def mayLackByteOrder (p : Program) (t : TypeDefinition) (f : Field) : Checked Bool := do
  let l ← Failure.require f.placement
  if (← knownValue l.size).map Constant.toInt == some 1 then return true
  let base ← (← Failure.require f.type).base
  return (← p.fixedSize base) == t.unit.map fun unit => (unit.bits : Int)

def lastDefault (name : String) (found : Option Attribute) : List Attribute →
    Checked (Option Attribute)
  | [] => return found
  | a :: rest => do
    if a.isDefault.getD false && (← requiredText a.name) == some name then
      lastDefault name (some a) rest
    else lastDefault name found rest

def defaultsIn : Node → List Attribute
  | .moduleFile m => m.attributes
  | .typeDefinition t => t.attributes
  | .field f => f.attributes
  | _ => []

/-- The default for a name in a place: the innermost one counts. -/
def defaultFor (name : String) (v : Visit) : Checked (Option Attribute) := do
  let inner ← (v.node :: v.ancestors).reverse.foldlM
    (fun found n => lastDefault name found (defaultsIn n)) none
  return inner.map fun a => { a with isDefault := some false }

def byteOrderFor (p : Program) (v : Visit) (t : TypeDefinition) (f : Field) :
    Checked (Option Attribute) := do
  let default ← defaultFor "byte_order" v
  if !(← needsByteOrder p t f) then return none
  if (← attribute? f.attributes "byte_order").isSome then return none
  match default with
  | some a => return some a
  | none =>
    if ← mayLackByteOrder p t f then return some (stringAttribute "byte_order" "Null" f.location)
    return none

def hasNegative : List EnumValue → Checked Bool
  | [] => return false
  | v :: rest => do
    match ← knownValue v.value with
    | none => throw .illTyped
    | some c => if c.toInt < 0 then return true else hasNegative rest

def completeEnum (t : TypeDefinition) (e : Enumeration) : Checked TypeDefinition := do
  let t ← match ← integerAttribute? t.attributes "maximum_bits" with
    | some _ => pure t
    | none =>
      pure { t with attributes := t.attributes ++ [integerAttribute "maximum_bits" 64 t.location] }
  match ← booleanAttribute? t.attributes "is_signed" with
  | some _ => return t
  | none =>
    let isSigned ← hasNegative e.values
    return { t with
      attributes := t.attributes ++ [booleanAttribute "is_signed" isSigned t.location] }

def completeExternal (t : TypeDefinition) : Checked TypeDefinition := do
  match (← integerAttribute? t.attributes "addressable_unit_size").map Constant.toInt with
  | some 1 => return { t with unit := some .bit }
  | some 8 => return { t with unit := some .byte }
  | _ => return t

def completeStructure (t : TypeDefinition) (s : Structure) : Checked TypeDefinition := do
  match ← sizeOfStructure s t.unit with
  | none => return t
  | some size =>
    match ← attribute? t.attributes "fixed_size_in_bits" with
    | some _ => return t
    | none =>
      return { t with
        attributes := t.attributes ++ [integerAttribute "fixed_size_in_bits" size t.location] }

def completeModule (m : Module) : Checked Module := do
  match ← attribute? m.attributes "expected_back_ends" with
  | some _ => return m
  | none =>
    return { m with
      attributes := m.attributes ++ [stringAttribute "expected_back_ends" "cpp" m.location] }

def changeTypes (p : Program) (kind : Kind) (change : TypeDefinition → Checked TypeDefinition) :
    Checked Program :=
  (p.visits [kind]).foldlM
    (fun p v => do
      let address := v.address.dropLast
      match (p.at? address).bind Node.typeDefinition? with
      | some t => return p.put address (.typeDefinition (← change t))
      | none => throw .invariant)
    p

def completeType (t : TypeDefinition) : Checked TypeDefinition :=
  match t.body with
  | .external _ => completeExternal t
  | .enumeration e => completeEnum t e
  | .record s => completeStructure t s
  | .unset => return t

def completeByteOrders (p : Program) : Checked Program :=
  (p.partsOf Node.field? [.field]).foldlM
    (fun q (v, f) => do
      let t ← Failure.require v.typeDefinition?
      match ← byteOrderFor p v t f with
      | none => return q
      | some a => return q.put v.address (.field { f with attributes := f.attributes ++ [a] }))
    p

def complete (p : Program) : Checked Program := do
  let modules ← p.modules.mapM completeModule
  let p := { p with modules := modules }
  let p ← changeTypes p .external completeType
  let p ← changeTypes p .enumBody completeType
  let p ← changeTypes p .structureBody completeType
  completeByteOrders p

end BinaryLayout.Attributes
