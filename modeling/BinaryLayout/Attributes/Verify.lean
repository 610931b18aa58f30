import BinaryLayout.Attributes.Complete
import BinaryLayout.Typing.Basic

/-!
# Checking attributes against what they describe

Once all attributes are there, they have to agree with the definition: sizes with fields, byte
orders with types, and qualifiers with the back ends that a module is for.
-/

namespace BinaryLayout.Attributes

open IR

/-- The back ends that a module is for; attributes without a qualifier belong to an empty one. -/
def expectedBackEnds (m : Module) : Checked (List String) := do
  let value ← Failure.require (← attribute? m.attributes "expected_back_ends")
  let text ← Failure.require (← Failure.require value.string?).text
  let names := (commaPieces text).map String.ofList
  return (names ++ [""]).eraseDups

def sortedNames (names : List String) : List String :=
  (names.mergeSort fun a b => decide (a ≤ b)).eraseDups

def checkBackEnd (file : String) (expected : List String) (a : Attribute) : ReportM Unit := do
  let backEnd := backEndText a
  if !expected.contains backEnd then
    let word ← Failure.require a.backEnd
    let others := expected.filter fun name => !name.isEmpty
    report (.error file word.location
      ("Back end specifier '" ++ backEnd ++ "' does not match any expected back end " ++
        "specifier for this file: '" ++ String.intercalate "', '" (sortedNames others) ++
        "'.  Add or update the '[expected_back_ends: \"" ++
        String.intercalate ", " (sortedNames (others ++ [backEnd])) ++
        "\"]' attribute at the file level if this back end specifier is intentional."))

def checkSize (file : String) (t : TypeDefinition) (s : Structure) : ReportM Unit := do
  let size ← sizeOfStructure s t.unit
  match ← attribute? t.attributes "fixed_size_in_bits" with
  | none => return
  | some value =>
    match size with
    | none =>
      report (.error file value.location
        "Struct is marked as fixed size, but contains variable-location fields.")
    | some size =>
      let given ← knownValue value.expression?
      if given.map Constant.toInt ≠ some size then
        report (.error file value.location
          ("Struct is " ++ Text.decimal size ++ " bits, but is marked as " ++
            (given.map Constant.text).getD "None" ++ " bits."))

def checkWidth (file : String) (t : TypeDefinition) : ReportM Unit := do
  match (← integerAttribute? t.attributes "maximum_bits").map Constant.toInt with
  | none => throw .invariant
  | some bits =>
    if bits > 64 || bits < 1 then
      let value ← Failure.require (← attribute? t.attributes "maximum_bits")
      report (.error file value.location "'maximum_bits' on an 'enum' must be between 1 and 64.")

def checkUnit (file : String) (t : TypeDefinition) : ReportM Unit := do
  match (← integerAttribute? t.attributes "addressable_unit_size").map Constant.toInt with
  | none =>
    report (.error file t.location
      "Expected 'addressable_unit_size' attribute for external type.")
  | some bits =>
    if bits ≠ 1 ∧ bits ≠ 8 then
      report (.error file t.location
        ("Only values '1' (bit) and '8' (byte) are allowed for the " ++
          "'addressable_unit_size' attribute"))

def checkByteOrder (p : Program) (file : String) (t : TypeDefinition) (f : Field) :
    ReportM Unit := do
  let value ← attribute? f.attributes "byte_order"
  let needed ← needsByteOrder p t f
  match value with
  | none =>
    if needed then
      report (.error file f.location
        "Attribute 'byte_order' required on field which is byte order dependent.")
  | some value =>
    if !needed then
      report (.error file value.location
        "Attribute 'byte_order' not allowed on field which is not byte order dependent.")
    if (← Failure.require value.string?).text == some "Null" then
      if !(← mayLackByteOrder p t f) then
        report (.error file value.location
          "Attribute 'byte_order' may only be 'Null' for one-byte fields.")

/-- The type of the values of a field; there is none for an array. -/
def fieldValueType (p : Program) (f : Field) : Checked (Option ExpressionType) := do
  if f.isVirtual then
    return some (← Failure.require (← Failure.require f.readTransform).type)
  match (← Failure.require f.type).atom? with
  | none => return none
  | some atom => return some (← Typing.valueTypeAt p atom.reference)

def checkRequirement (p : Program) (file : String) (f : Field) : ReportM Unit := do
  match ← attribute? f.attributes "requires" with
  | none => return
  | some value =>
    match ← fieldValueType p f with
    | none =>
      reportGroup
        [.error file value.location
            ("Attribute 'requires' is only allowed on integer, " ++
              "enumeration, or boolean fields, not arrays."),
          .note file (f.type.bind TypeSpec.location) "Field type."]
    | some (.integer _) | some (.enumeration _) | some (.boolean _) => return
    | some _ =>
      report (.error file value.location
        "Attribute 'requires' is only allowed on integer, enumeration, or boolean fields.")

def checkBackEnds (p : Program) : ReportM Unit := do
  for (v, m) in p.partsOf Node.module? [.moduleFile] do
    let expected ← expectedBackEnds m
    for inner in (Node.moduleFile m).walk [] [.property] [] [] do
      if let some a := inner.node.property? then checkBackEnd v.file expected a

def verify (p : Program) : Checked (List MessageGroup) :=
  ReportM.groups do
    checkBackEnds p
    for (v, s) in p.partsOf Node.structure? [.structureBody] do
      checkSize v.file (← Failure.require v.typeDefinition?) s
    for v in p.visits [.enumBody] do checkWidth v.file (← Failure.require v.typeDefinition?)
    for v in p.visits [.external] do checkUnit v.file (← Failure.require v.typeDefinition?)
    for (v, f) in p.partsOf Node.field? [.field] do
      checkByteOrder p v.file (← Failure.require v.typeDefinition?) f
      checkRequirement p v.file f

def normalize (p : Program) : Checked (Program × List MessageGroup) := do
  let groups ← languageRules.check p
  if !groups.isEmpty then return (p, groups)
  let p ← complete p
  return (p, ← verify p)

end BinaryLayout.Attributes
