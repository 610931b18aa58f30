import BinaryLayout.Constraint.Placement
import BinaryLayout.Language.Reserved

/-!
# Other constraints on definitions
-/

namespace BinaryLayout.Constraint

open IR

def parameterTypes (q : RuntimeParameter) : Checked (TypeSpec × ExpressionType) := do
  let physical ← Failure.require q.physicalType
  let _ ← numberOf physical.sizeInBits
  return (physical, ← Failure.require q.type)

def checkParameterSize (file : String) (q : RuntimeParameter) : ReportM Unit := do
  let (physical, type) ← parameterTypes q
  match type with
  | .integer _ =>
    if physical.sizeInBits.isNone then
      let atom ← Failure.require physical.atom?
      let word ← Failure.lastOf (← Failure.require atom.reference).sourceName
      report (.error file physical.location
        ("Parameters with integer type must have explicit size (e.g., `" ++
          word.text.getD "None" ++ ":32`)."))
  | .enumeration _ =>
    if let some size := physical.sizeInBits then
      report (.error file size.location "Parameters with enum type may not have explicit size.")
  | _ => throw .invariant

/-- Check what has to hold before bounds can be computed. -/
def checkEarly (p : Program) : Checked (Program × List MessageGroup) := do
  let groups ← ReportM.groups do
    for (v, q) in p.partsOf Node.parameter? [.runtimeParameter] do checkParameterSize v.file q
  return (p, groups)

def checkParameter (p : Program) (file : String) (q : RuntimeParameter) : ReportM Unit := do
  let (physical, type) ← parameterTypes q
  match type with
  | .integer t =>
    let errors ← rangeErrors file physical.location "parameter" t
    let errors ← if errors.isEmpty then do
        requirementErrors p file physical q.location (← numberOf physical.sizeInBits)
      else pure errors
    for group in errors do reportGroup group
  | .enumeration _ => return
  | _ => throw .invariant

def checkName (file : String) (n : Option NameDefinition) (role : String) : ReportM Unit := do
  let word ← Failure.require (← Failure.require n).name
  if let some language := word.text.bind Language.reservedIn then
    report (.error file word.location
      (language ++ " reserved word may not be used as " ++ role ++ "."))

def checkStatic (p : Program) (file : String) (e : Expression) : ReportM Unit := do
  match e with
  | .constantReference r note =>
    let type ← Failure.entry note.type
    if !type.isConstant then
      match r.canonicalName with
      | none => throw .illTyped
      | some name =>
        let found ← p.find name
        reportGroup
          [.error file note.location "Static references must refer to constants.",
            .note name.file found.object.node.location
              ((← Failure.lastOf name.path) ++ " is not constant.")]
  | _ => return

def enumRange (isSigned : Bool) (bits : Int) : Int × Int :=
  if isSigned then (-Int.pow 2 (bits - 1).toNat, Int.pow 2 (bits - 1).toNat - 1)
  else (0, Int.pow 2 bits.toNat - 1)

def checkEnum (file : String) (t : TypeDefinition) (e : Enumeration) : ReportM Unit := do
  let bits ← match ← integerAttribute? t.attributes "maximum_bits" with
    | some bits => pure bits
    | none => throw Failure.illTyped
  let isSigned := (← booleanAttribute? t.attributes "is_signed").getD false
  let (low, high) := enumRange isSigned bits.toInt
  let values ← e.values.mapM fun v => do
    match v.value with
    | none => throw Failure.illTyped
    | some value =>
      match ← value.constantValue? with
      | none => throw Failure.illTyped
      | some c => return (value, c)
  for (value, c) in values do
    if c.toInt < low ∨ high < c.toInt then
      report (.error file value.location
        ("Value " ++ c.text ++ " is out of range for " ++ bits.text ++ "-bit " ++
          (if isSigned then "signed" else "unsigned") ++ " enumeration."))

/-- Check that the values of an expression fit in integers that code can use.  What types require
of their size is never computed by code. -/
def checkRange (v : Visit) (e : Expression) : ReportM Unit := do
  if let some a := v.nearest Node.property? then
    if (← requiredText a.name) == some "static_requirements" then return
  for group in ← expressionErrors v.file e do reportGroup group

def check (p : Program) : Checked (Program × List MessageGroup) := do
  let groups ← ReportM.groups do
    let types := p.partsOf Node.type? [.structureBody, .type]
    for (v, t) in types do checkUnit p v.file (← Failure.require v.typeDefinition?) t
    for (v, a) in p.partsOf Node.arrayType? [.arrayType] do checkElementsFixed p v.file a
    for (v, a) in p.partsOf Node.arrayType? [.structureBody, .arrayType] do
      checkElementsWhole p v.file (← Failure.require v.typeDefinition?) a
    for (v, a) in p.partsOf Node.arrayType? [.arrayType, .arrayType] do checkInnerCount v.file a
    for v in p.visits [.structureBody] do
      checkBitsSize v.file (← Failure.require v.typeDefinition?)
    for (v, t) in types do
      checkFieldType p v.file (← Failure.require v.typeDefinition?) (← Failure.require v.field?) t
    for (v, f) in p.partsOf Node.field? [.field] do checkName v.file f.name "a field name"
    for (v, e) in p.partsOf Node.enumValue? [.enumValue] do checkName v.file e.name "an enum name"
    for (v, t) in p.partsOf Node.typeDefinition? [.typeDefinition] do
      checkName v.file t.name "a type name"
    for (v, e) in p.partsOf Node.expression? [.expression] do checkStatic p v.file e
    for (v, e) in p.partsOf Node.enumeration? [.enumBody] do
      checkEnum v.file (← Failure.require v.typeDefinition?) e
    for (v, e) in p.partsOf Node.expression? [.expression] [.enumValue, .expression] do
      checkRange v e
    for (v, q) in p.partsOf Node.parameter? [.runtimeParameter] do checkParameter p v.file q
  return (p, groups)

end BinaryLayout.Constraint
