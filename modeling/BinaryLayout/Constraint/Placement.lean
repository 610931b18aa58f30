import BinaryLayout.Constraint.Range
import BinaryLayout.IR.Find
import BinaryLayout.IR.Walk

/-!
# Types in their places

A type has to fit the field that it is put in, and may ask for more.
-/

namespace BinaryLayout.Constraint

open IR

def definitionAt (p : Program) (r : Option Reference) : Checked TypeDefinition := do
  match (← p.resolve? r).object with
  | .definition t => return t
  | _ => throw .unset

def unitBits (t : TypeDefinition) : Checked Int :=
  match t.unit with
  | some unit => return unit.bits
  | none => .error .illTyped

def remainder (n unit : Int) : Checked Int :=
  if unit = 0 then .error .divisionByZero else return n.emod unit

def shownName (p : Program) (atom : AtomicType) (suffix : String) : Checked String := do
  let d ← definitionAt p atom.reference
  let name ← Failure.require d.name
  if name.isAnonymous.getD false then return "anonymous type"
  return "type '" ++ (← requiredText name.name).getD "None" ++ suffix ++ "'"

def shownType (p : Program) (atom : AtomicType) (size : Option Expression) : Checked String := do
  match size with
  | none => shownName p atom ""
  | some size =>
    let value ← size.constantValue?
    shownName p atom (":" ++ (value.map Constant.text).getD "None")

def numberOf (e : Option Expression) : Checked (Option Int) :=
  match e with
  | none => return none
  | some e => do return (← e.constantValue?).map Constant.toInt

def checkUnit (p : Program) (file : String) (t : TypeDefinition) (used : TypeSpec) :
    ReportM Unit := do
  match used with
  | .atomic atom size location =>
    let d ← definitionAt p atom.reference
    let outer ← unitBits t
    let inner ← unitBits d
    if (← remainder outer inner) ≠ 0 then
      Failure.ensure (t.unit == some .bit && d.unit == some .byte)
      report (.error file location
        ("Byte-oriented " ++ (← shownType p atom size) ++ " cannot be used in a bits field."))
  | _ => return

def checkElementsFixed (p : Program) (file : String) (a : ArrayType) : ReportM Unit := do
  match ← Failure.require a.base with
  | .array _ _ _ _ _ => return
  | .unset _ _ => throw .invariant
  | .atomic _ (some _) _ => return
  | .atomic atom none _ =>
    let d ← p.resolve? atom.reference
    match ← integerAttribute? (← d.object.attributes) "fixed_size_in_bits" with
    | some _ => return
    | none => report (.error file atom.location "Array elements must be fixed size.")

def checkElementsWhole (p : Program) (file : String) (t : TypeDefinition) (a : ArrayType) :
    ReportM Unit := do
  let base ← Failure.require a.base
  let size ← match base with
    | .array _ _ _ _ _ => return
    | .unset _ _ => throw Failure.invariant
    | .atomic _ (some size) _ =>
      match ← numberOf (some size) with
      | some n => pure (some n)
      | none => throw Failure.invariant
    | .atomic _ none _ => p.fixedSize base
  match size with
  | none => return
  | some size =>
    if (← remainder size (← unitBits t)) ≠ 0 then
      Failure.ensure (t.unit == some .byte)
      report (.error file base.location
        "Array elements in structs must have sizes which are a multiple of 8 bits.")

def checkInnerCount (file : String) (a : ArrayType) : ReportM Unit := do
  match a.size with
  | .automatic _ =>
    report (.error file none "Array dimensions can only be omitted for the outermost dimension.")
  | .count e =>
    if !(← e.isConstant) then
      report (.error file e.location "Inner array dimensions must be constant.")
  | .unset => throw .invariant

def checkBitsSize (file : String) (t : TypeDefinition) : ReportM Unit := do
  if t.unit ≠ some .bit then return
  match (← integerAttribute? t.attributes "fixed_size_in_bits").map Constant.toInt with
  | none => report (.error file t.location "`bits` types must be fixed size.")
  | some size =>
    if size > 64 then
      report (.error file t.location "`bits` types must be 64 bits or smaller.")

def enumErrors (p : Program) (file : String) (atom : AtomicType) (written : Option Expression)
    (location : Option Location) (d : TypeDefinition) (size : Option Int) :
    Checked (List MessageGroup) := do
  match size with
  | none =>
    return [[.error file location
      ("Enumeration " ++ (← shownType p atom written) ++
        " cannot be placed in a dynamically-sized field.")]]
  | some size =>
    let limit ← integerAttribute? d.attributes "maximum_bits"
    let tooLarge ← if size < 1 then pure true else
      match limit with
      | some limit => pure (decide (size > limit.toInt))
      | none => throw .illTyped
    if !tooLarge then return []
    let name ← shownName p atom ""
    return [[.error file location
      ("Enumeration " ++ name ++ " cannot be " ++ Text.decimal size ++ " bits; " ++ name ++
        " must be between 1 and " ++ (limit.map Constant.text).getD "None" ++
        " bits, inclusive.")]]

def sizeBindings : Option Int → Bindings
  | none => [("$is_statically_sized", .bool false)]
  | some size => [("$is_statically_sized", .bool true), ("$static_size_in_bits", .int size)]

def staticErrors (file : String) (atom : AtomicType) (attributes : List Attribute)
    (place : Option Location) (size : Option Int) : Checked (List MessageGroup) := do
  match ← attribute? attributes "static_requirements" with
  | none => return []
  | some value =>
    let met ← match value.expression? with
      | none => pure none
      | some e => e.constant? (sizeBindings size)
    if (met.map Constant.isTrue).getD false then return []
    let name ← Failure.require (← Failure.require atom.reference).canonicalName
    return [[.error file place ("Requirements of " ++ (← Failure.lastOf name.path) ++ " not met."),
      .note name.file value.location "Requirements specified here."]]

def requirementErrors (p : Program) (file : String) (used : TypeSpec) (place : Option Location)
    (size : Option Int) : Checked (List MessageGroup) := do
  let atom ← Failure.require used.atom?
  let object := (← p.resolve? atom.reference).object
  match object with
  | .definition d =>
    if let .enumeration _ := d.body then
      let errors ← enumErrors p file atom used.sizeInBits used.location d size
      if !errors.isEmpty then return errors
  | _ => pure ()
  staticErrors file atom (← object.attributes) place size

def fieldSizes (t : TypeDefinition) (f : Field) : Checked (Int × Int) := do
  let size ← Failure.require (← Failure.require f.placement).size
  match ← Failure.require size.type with
  | .integer bounds =>
    let low ← Bounds.finite bounds.minimum
    let unit ← unitBits t
    let high ← Bounds.finite bounds.maximum
    return (low * unit, high * unit)
  | _ => throw .unset

def fitErrors (p : Program) (file : String) (atom : AtomicType) (written : Option Expression)
    (location : Option Location) (isAnonymous : Bool) (sizes : Int × Int) (size : Int) :
    Checked (List MessageGroup) := do
  let (low, high) := sizes
  if high = low ∧ (size > high ∨ (size < low ∧ !isAnonymous)) then
    return [[.error file location
      ("Fixed-size " ++ (← shownType p atom written) ++ " cannot be placed in field of size " ++
        Text.decimal high ++ " bits; requires " ++ Text.decimal size ++ " bits.")]]
  if size > high then
    return [[.error file location
      ("Field of maximum size " ++ Text.decimal high ++ " bits cannot hold fixed-size " ++
        (← shownType p atom written) ++ ", which requires " ++ Text.decimal size ++ " bits.")]]
  return []

def roomErrors (p : Program) (file : String) (atom : AtomicType) (written : Option Expression)
    (location : Option Location) (isAnonymous : Bool) :
    Option (Int × Int) → Option Int → Checked (List MessageGroup)
  | some sizes, some size => fitErrors p file atom written location isAnonymous sizes size
  | _, _ => return []

def mismatchErrors (p : Program) (file : String) (atom : AtomicType) (written : Option Expression)
    (place : Option Location) : Option Int → Option Int → Checked (List MessageGroup)
  | some given, some size => do
    if given = size then return []
    let name ← Failure.require (← Failure.require atom.reference).canonicalName
    return [[.error file (written.bind Expression.location)
        ("Explicit size of " ++ Text.decimal given ++ " bits does not match fixed size (" ++
          Text.decimal size ++ " bits) of " ++ (← shownName p atom "") ++ "."),
      .note name.file place "Size specified here."]]
  | _, _ => return []

def attributeSize : Option AttributeValue → Checked (Option Int)
  | some value => numberOf value.expression?
  | none => return none

/-- The size of a type in a field: its own, or else that of the field if there is only one. -/
def sizeInField (own : Option Int) (sizes : Option (Int × Int)) : Option Int :=
  match own, sizes with
  | some size, _ => some size
  | none, some (low, high) => if low = high then some low else none
  | none, none => none

def fieldErrors (p : Program) (file : String) (t : TypeDefinition) (f : Field)
    (atom : AtomicType) (written : Option Expression) (location : Option Location) :
    Checked (List MessageGroup) := do
  let sizes ← match ← Failure.require f.type with
    | .atomic _ _ _ => some <$> fieldSizes t f
    | _ => pure none
  let element ← numberOf written
  let d ← definitionAt p atom.reference
  let isAnonymous := (← Failure.require d.name).isAnonymous.getD false
  let sizeAttribute ← attribute? d.attributes "fixed_size_in_bits"
  let fixed ← attributeSize sizeAttribute
  let errors ← mismatchErrors p file atom written (sizeAttribute.bind AttributeValue.location)
    element fixed
  if !errors.isEmpty then return errors
  let own := element.or fixed
  let errors ← roomErrors p file atom written location isAnonymous sizes own
  if !errors.isEmpty then return errors
  requirementErrors p file (.atomic atom written location) f.location (sizeInField own sizes)

def checkFieldType (p : Program) (file : String) (t : TypeDefinition) (f : Field)
    (used : TypeSpec) : ReportM Unit := do
  match used with
  | .atomic atom written location =>
    for group in ← fieldErrors p file t f atom written location do reportGroup group
  | _ => return

end BinaryLayout.Constraint
