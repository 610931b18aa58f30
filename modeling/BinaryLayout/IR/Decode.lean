import BinaryLayout.IR.Record

/-!
# From records to the representation

The node that a record stands for.  A field that is missing, or holds a value that does not
belong there, counts as not set.
-/

namespace BinaryLayout.IR

namespace Datum

def part {α : Type} (decode : Datum → α) (name : String) (d : Datum) : Option α :=
  match d.get name with
  | .unset => none
  | value => some (decode value)

def parts {α : Type} (decode : Datum → α) (name : String) (d : Datum) : List α :=
  (d.get name).elements.map decode

def toText : Datum → String
  | .text s => s
  | .integer n => Text.decimal n
  | .flag b => if b then "True" else "False"
  | _ => ""

/-- The truth value of a scalar. -/
def toFlag : Datum → Bool
  | .flag b => b
  | d => d.number?.getD 0 != 0

def toInteger (d : Datum) : Int :=
  d.number?.getD 0

def place (d : Datum) : Option Location :=
  match d.get "source_location" with
  | .location l => some l
  | _ => none

def operator? (d : Datum) : Option Operator :=
  match d.get "function" with
  | .operator o => some o
  | _ => none

def unit? (d : Datum) : Option AddressableUnit :=
  match d.get "addressable_unit" with
  | .unit u => some u
  | _ => none

def choice? (names : List String) (d : Datum) : Option String :=
  names.find? fun name => (d.get name).isSet

end Datum

open Datum

def Word.ofDatum (d : Datum) : Word :=
  ⟨d.part toText "text", d.place⟩

def StringConstant.ofDatum (d : Datum) : StringConstant :=
  ⟨d.part toText "text", d.place⟩

def Documentation.ofDatum (d : Datum) : Documentation :=
  ⟨d.part toText "text", d.place⟩

def BooleanConstant.ofDatum (d : Datum) : BooleanConstant :=
  ⟨d.part toFlag "value", d.place⟩

def Blank.ofDatum (d : Datum) : Blank :=
  ⟨d.place⟩

def Numeral.ofDatum (d : Datum) : Numeral :=
  .ofText d.toText

def NumericConstant.ofDatum (d : Datum) : NumericConstant :=
  ⟨d.part Numeral.ofDatum "value", d.place⟩

def CanonicalName.ofDatum (d : Datum) : CanonicalName :=
  ⟨(d.part toText "module_file").getD "", d.parts toText "object_path"⟩

def NameDefinition.ofDatum (d : Datum) : NameDefinition :=
  ⟨d.part Word.ofDatum "name", d.part CanonicalName.ofDatum "canonical_name",
    d.part toFlag "is_anonymous", d.place⟩

def Reference.ofDatum (d : Datum) : Reference :=
  ⟨d.part CanonicalName.ofDatum "canonical_name", d.parts Word.ofDatum "source_name",
    d.part toFlag "is_local_name", d.place⟩

def FieldReference.ofDatum (d : Datum) : FieldReference :=
  ⟨d.parts Reference.ofDatum "path", d.place⟩

def IntegerType.ofDatum (d : Datum) : IntegerType :=
  ⟨d.part Numeral.ofDatum "modulus", d.part Numeral.ofDatum "modular_value",
    d.part Numeral.ofDatum "minimum_value", d.part Numeral.ofDatum "maximum_value"⟩

def BooleanType.ofDatum (d : Datum) : BooleanType :=
  ⟨d.part toFlag "value"⟩

def EnumType.ofDatum (d : Datum) : EnumType :=
  ⟨d.part Reference.ofDatum "name", d.part Numeral.ofDatum "value"⟩

def ExpressionType.ofDatum (d : Datum) : ExpressionType :=
  match d.choice? ["opaque", "integer", "boolean", "enumeration"] with
  | some "opaque" => .compound
  | some "integer" => .integer (.ofDatum (d.get "integer"))
  | some "boolean" => .boolean (.ofDatum (d.get "boolean"))
  | some "enumeration" => .enumeration (.ofDatum (d.get "enumeration"))
  | _ => .unset

def Annotation.ofDatum (d : Datum) : Annotation :=
  ⟨d.part ExpressionType.ofDatum "type", d.place⟩

/-- The expression that a record stands for, given those of the arguments of a call. -/
def Expression.ofParts (d : Datum) (args : List Expression) : Expression :=
  let note := Annotation.ofDatum d
  match d.choice? ["constant", "constant_reference", "function", "field_reference",
    "boolean_constant", "builtin_reference"] with
  | some "constant" => .constant (.ofDatum (d.get "constant")) note
  | some "constant_reference" => .constantReference (.ofDatum (d.get "constant_reference")) note
  | some "function" =>
    let call := d.get "function"
    .function call.operator? args (call.part Word.ofDatum "function_name") call.place note
  | some "field_reference" => .fieldReference (.ofDatum (d.get "field_reference")) note
  | some "boolean_constant" => .booleanConstant (.ofDatum (d.get "boolean_constant")) note
  | some "builtin_reference" => .builtinReference (.ofDatum (d.get "builtin_reference")) note
  | _ => .unset note

mutual

def Expression.ofDatum : Datum → Expression
  | .record kind members =>
    Expression.ofParts (.record kind members) (Expression.argumentsOfMembers members)
  | d => Expression.ofParts d []

def Expression.argumentsOfMembers : List (String × Datum) → List Expression
  | [] => []
  | (name, value) :: rest =>
    if name = "function" then Expression.argumentsOfCall value
    else Expression.argumentsOfMembers rest

def Expression.argumentsOfCall : Datum → List Expression
  | .record _ members => Expression.argumentsOfCallMembers members
  | _ => []

def Expression.argumentsOfCallMembers : List (String × Datum) → List Expression
  | [] => []
  | (name, value) :: rest =>
    if name = "args" then Expression.allOfList value
    else Expression.argumentsOfCallMembers rest

def Expression.allOfList : Datum → List Expression
  | .list elements => Expression.allOfData elements
  | _ => []

def Expression.allOfData : List Datum → List Expression
  | [] => []
  | d :: rest => Expression.ofDatum d :: Expression.allOfData rest

end

def AtomicType.ofDatum (d : Datum) : AtomicType :=
  ⟨d.part Reference.ofDatum "reference", d.parts Expression.ofDatum "runtime_parameter", d.place⟩

def ArraySize.ofDatum (d : Datum) : ArraySize :=
  match d.choice? ["element_count", "automatic"] with
  | some "element_count" => .count (.ofDatum (d.get "element_count"))
  | some "automatic" => .automatic (.ofDatum (d.get "automatic"))
  | _ => .unset

def TypeSpec.ofParts (d : Datum) (base : Option TypeSpec) : TypeSpec :=
  let size := d.part Expression.ofDatum "size_in_bits"
  match d.choice? ["atomic_type", "array_type"] with
  | some "atomic_type" => .atomic (.ofDatum (d.get "atomic_type")) size d.place
  | some "array_type" =>
    let whole := d.get "array_type"
    .array base (.ofDatum whole) whole.place size d.place
  | _ => .unset size d.place

mutual

def TypeSpec.ofDatum : Datum → TypeSpec
  | .record kind members =>
    TypeSpec.ofParts (.record kind members) (TypeSpec.baseOfMembers members)
  | d => TypeSpec.ofParts d none

/-- The element type of the array among the fields of a record. -/
def TypeSpec.baseOfMembers : List (String × Datum) → Option TypeSpec
  | [] => none
  | (name, value) :: rest =>
    if name = "array_type" then TypeSpec.baseOfArray value else TypeSpec.baseOfMembers rest

def TypeSpec.baseOfArray : Datum → Option TypeSpec
  | .record _ members => TypeSpec.baseOfArrayMembers members
  | _ => none

def TypeSpec.baseOfArrayMembers : List (String × Datum) → Option TypeSpec
  | [] => none
  | (name, value) :: rest =>
    if name = "base_type" then
      match value with
      | .unset => none
      | value => some (TypeSpec.ofDatum value)
    else TypeSpec.baseOfArrayMembers rest

end

def AttributeValue.ofDatum (d : Datum) : AttributeValue :=
  match d.choice? ["expression", "string_constant"] with
  | some "expression" => .expression (.ofDatum (d.get "expression")) d.place
  | some "string_constant" => .string (.ofDatum (d.get "string_constant")) d.place
  | _ => .unset d.place

def Attribute.ofDatum (d : Datum) : Attribute :=
  ⟨d.part Word.ofDatum "name", d.part AttributeValue.ofDatum "value",
    d.part Word.ofDatum "back_end", d.part toFlag "is_default", d.place⟩

def WriteTransform.ofDatum (d : Datum) : WriteTransform :=
  ⟨d.part Expression.ofDatum "function_body", d.part FieldReference.ofDatum "destination"⟩

def WriteMethod.ofDatum (d : Datum) : WriteMethod :=
  match d.choice? ["physical", "read_only", "alias", "transform"] with
  | some "physical" => .physical (d.get "physical").toFlag
  | some "read_only" => .readOnly (d.get "read_only").toFlag
  | some "alias" => .alias (.ofDatum (d.get "alias"))
  | some "transform" => .transform (.ofDatum (d.get "transform"))
  | _ => .unset

def Placement.ofDatum (d : Datum) : Placement :=
  ⟨d.part Expression.ofDatum "start", d.part Expression.ofDatum "size", d.place⟩

def Field.ofDatum (d : Datum) : Field :=
  { placement := d.part Placement.ofDatum "location"
    type := d.part TypeSpec.ofDatum "type"
    readTransform := d.part Expression.ofDatum "read_transform"
    writeMethod := d.part WriteMethod.ofDatum "write_method"
    name := d.part NameDefinition.ofDatum "name"
    abbreviation := d.part Word.ofDatum "abbreviation"
    attributes := d.parts Attribute.ofDatum "attribute"
    documentation := d.parts Documentation.ofDatum "documentation"
    existenceCondition := d.part Expression.ofDatum "existence_condition"
    location := d.place }

def Structure.ofDatum (d : Datum) : Structure :=
  ⟨d.parts Field.ofDatum "field", d.parts toInteger "fields_in_dependency_order", d.place⟩

def EnumValue.ofDatum (d : Datum) : EnumValue :=
  ⟨d.part NameDefinition.ofDatum "name", d.part Expression.ofDatum "value",
    d.parts Documentation.ofDatum "documentation", d.parts Attribute.ofDatum "attribute",
    d.place⟩

def Enumeration.ofDatum (d : Datum) : Enumeration :=
  ⟨d.parts EnumValue.ofDatum "value", d.place⟩

def Import.ofDatum (d : Datum) : Import :=
  ⟨d.part StringConstant.ofDatum "file_name", d.part Word.ofDatum "local_name", d.place⟩

def RuntimeParameter.ofDatum (d : Datum) : RuntimeParameter :=
  ⟨d.part NameDefinition.ofDatum "name", d.part ExpressionType.ofDatum "type",
    d.part TypeSpec.ofDatum "physical_type_alias", d.place⟩

def TypeBody.ofDatum (d : Datum) : TypeBody :=
  match d.choice? ["external", "enumeration", "structure"] with
  | some "external" => .external ⟨(d.get "external").place⟩
  | some "enumeration" => .enumeration (.ofDatum (d.get "enumeration"))
  | some "structure" => .record (.ofDatum (d.get "structure"))
  | _ => .unset

mutual

def TypeDefinition.ofDatum : Datum → TypeDefinition
  | .record kind members =>
    let d := Datum.record kind members
    { body := TypeBody.ofDatum d
      name := d.part NameDefinition.ofDatum "name"
      attributes := d.parts Attribute.ofDatum "attribute"
      documentation := d.parts Documentation.ofDatum "documentation"
      subtypes := TypeDefinition.subtypesOfMembers members
      unit := d.unit?
      parameters := d.parts RuntimeParameter.ofDatum "runtime_parameter"
      location := d.place }
  | _ => {}

/-- The types inside, among the fields of a record. -/
def TypeDefinition.subtypesOfMembers : List (String × Datum) → List TypeDefinition
  | [] => []
  | (name, value) :: rest =>
    if name = "subtype" then TypeDefinition.allOfList value
    else TypeDefinition.subtypesOfMembers rest

def TypeDefinition.allOfList : Datum → List TypeDefinition
  | .list elements => TypeDefinition.allOfData elements
  | _ => []

def TypeDefinition.allOfData : List Datum → List TypeDefinition
  | [] => []
  | d :: rest => TypeDefinition.ofDatum d :: TypeDefinition.allOfData rest

end

def Module.ofDatum (d : Datum) : Module :=
  { attributes := d.parts Attribute.ofDatum "attribute"
    types := d.parts TypeDefinition.ofDatum "type"
    documentation := d.parts Documentation.ofDatum "documentation"
    imports := d.parts Import.ofDatum "foreign_import"
    sourceText := d.part toText "source_text"
    location := d.place
    fileName := d.part toText "source_file_name" }

def Program.ofDatum (d : Datum) : Program :=
  ⟨d.parts Module.ofDatum "module"⟩

end BinaryLayout.IR
