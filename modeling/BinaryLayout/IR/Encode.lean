import BinaryLayout.IR.Record

/-!
# From the representation to records

Every node as a record of its kind, with a value for each field of the schema.
-/

namespace BinaryLayout.IR

namespace Datum

/-- A part that may not be set. -/
def ofOption {α : Type} (encode : α → Datum) : Option α → Datum
  | some a => encode a
  | none => .unset

def ofParts {α : Type} (encode : α → Datum) (parts : List α) : Datum :=
  .list (parts.map encode)

def chosen (names : List String) (choice : String) (value : Datum) : List (String × Datum) :=
  names.map fun name => (name, if name = choice then value else .unset)

end Datum

open Datum (ofOption ofParts chosen)

def placeMember (l : Option Location) : String × Datum :=
  ("source_location", ofOption .location l)

def Numeral.toDatum (n : Numeral) : Datum :=
  .text n.text

def Word.toDatum (w : Word) : Datum :=
  .record .word [("text", ofOption .text w.text), placeMember w.location]

def StringConstant.toDatum (s : StringConstant) : Datum :=
  .record .string [("text", ofOption .text s.text), placeMember s.location]

def Documentation.toDatum (d : Documentation) : Datum :=
  .record .documentation [("text", ofOption .text d.text), placeMember d.location]

def BooleanConstant.toDatum (b : BooleanConstant) : Datum :=
  .record .booleanConstant [("value", ofOption .flag b.value), placeMember b.location]

def Blank.toDatum (b : Blank) : Datum :=
  .record .empty [placeMember b.location]

def NumericConstant.toDatum (n : NumericConstant) : Datum :=
  .record .numericConstant [("value", ofOption Numeral.toDatum n.value), placeMember n.location]

def CanonicalName.toDatum (n : CanonicalName) : Datum :=
  .record .canonicalName [("module_file", .text n.file), ("object_path", ofParts .text n.path)]

def NameDefinition.toDatum (n : NameDefinition) : Datum :=
  .record .nameDefinition
    [("name", ofOption Word.toDatum n.name),
      ("canonical_name", ofOption CanonicalName.toDatum n.canonicalName),
      ("is_anonymous", ofOption .flag n.isAnonymous), placeMember n.location]

def Reference.toDatum (r : Reference) : Datum :=
  .record .reference
    [("canonical_name", ofOption CanonicalName.toDatum r.canonicalName),
      ("source_name", ofParts Word.toDatum r.sourceName),
      ("is_local_name", ofOption .flag r.isLocalName), placeMember r.location]

def FieldReference.toDatum (r : FieldReference) : Datum :=
  .record .fieldReference [("path", ofParts Reference.toDatum r.path), placeMember r.location]

def IntegerType.toDatum (t : IntegerType) : Datum :=
  .record .integerType
    [("modulus", ofOption Numeral.toDatum t.modulus),
      ("modular_value", ofOption Numeral.toDatum t.modularValue),
      ("minimum_value", ofOption Numeral.toDatum t.minimum),
      ("maximum_value", ofOption Numeral.toDatum t.maximum)]

def BooleanType.toDatum (t : BooleanType) : Datum :=
  .record .booleanType [("value", ofOption .flag t.value)]

def EnumType.toDatum (t : EnumType) : Datum :=
  .record .enumType
    [("name", ofOption Reference.toDatum t.name), ("value", ofOption Numeral.toDatum t.value)]

def ExpressionType.toDatum (t : ExpressionType) : Datum :=
  let members := chosen ["opaque", "integer", "boolean", "enumeration"]
  .record .expressionType <|
    match t with
    | .unset => members "" .unset
    | .compound => members "opaque" (.record .compoundType [])
    | .integer bounds => members "integer" bounds.toDatum
    | .boolean known => members "boolean" known.toDatum
    | .enumeration known => members "enumeration" known.toDatum

def expressionRecord (choice : String) (value : Datum) (note : Annotation) : Datum :=
  .record .expression <|
    chosen ["constant", "constant_reference", "function", "field_reference", "boolean_constant",
      "builtin_reference"] choice value ++
    [("type", ofOption ExpressionType.toDatum note.type), placeMember note.location]

mutual

def Expression.toDatum : Expression → Datum
  | .unset note => expressionRecord "" .unset note
  | .constant value note => expressionRecord "constant" value.toDatum note
  | .constantReference r note => expressionRecord "constant_reference" r.toDatum note
  | .function operator args name location note =>
    expressionRecord "function"
      (.record .function
        [("function", ofOption .operator operator), ("args", .list (Expression.allToData args)),
          ("function_name", ofOption Word.toDatum name), placeMember location])
      note
  | .fieldReference r note => expressionRecord "field_reference" r.toDatum note
  | .booleanConstant value note => expressionRecord "boolean_constant" value.toDatum note
  | .builtinReference r note => expressionRecord "builtin_reference" r.toDatum note

def Expression.allToData : List Expression → List Datum
  | [] => []
  | e :: rest => e.toDatum :: Expression.allToData rest

end

def AtomicType.toDatum (t : AtomicType) : Datum :=
  .record .atomicType
    [("reference", ofOption Reference.toDatum t.reference),
      ("runtime_parameter", ofParts Expression.toDatum t.arguments), placeMember t.location]

def ArraySize.members (s : ArraySize) : List (String × Datum) :=
  let members := chosen ["element_count", "automatic"]
  match s with
  | .unset => members "" .unset
  | .count e => members "element_count" e.toDatum
  | .automatic b => members "automatic" b.toDatum

def typeRecord (choice : String) (value : Datum) (sizeInBits : Option Expression)
    (location : Option Location) : Datum :=
  .record .type <|
    chosen ["atomic_type", "array_type"] choice value ++
    [("size_in_bits", ofOption Expression.toDatum sizeInBits), placeMember location]

mutual

def TypeSpec.toDatum : TypeSpec → Datum
  | .unset size location => typeRecord "" .unset size location
  | .atomic atom size location => typeRecord "atomic_type" atom.toDatum size location
  | .array base count arrayLocation size location =>
    typeRecord "array_type"
      (.record .arrayType
        (("base_type", TypeSpec.optionToDatum base) :: count.members ++
          [placeMember arrayLocation]))
      size location

def TypeSpec.optionToDatum : Option TypeSpec → Datum
  | some t => t.toDatum
  | none => .unset

end

def AttributeValue.toDatum (v : AttributeValue) : Datum :=
  let members := chosen ["expression", "string_constant"]
  .record .attributeValue <|
    match v with
    | .unset l => members "" .unset ++ [placeMember l]
    | .expression e l => members "expression" e.toDatum ++ [placeMember l]
    | .string s l => members "string_constant" s.toDatum ++ [placeMember l]

def Attribute.toDatum (a : Attribute) : Datum :=
  .record .property
    [("name", ofOption Word.toDatum a.name), ("value", ofOption AttributeValue.toDatum a.value),
      ("back_end", ofOption Word.toDatum a.backEnd), ("is_default", ofOption .flag a.isDefault),
      placeMember a.location]

def WriteTransform.toDatum (t : WriteTransform) : Datum :=
  .record .writeTransform
    [("function_body", ofOption Expression.toDatum t.body),
      ("destination", ofOption FieldReference.toDatum t.destination)]

def WriteMethod.toDatum (m : WriteMethod) : Datum :=
  let members := chosen ["physical", "read_only", "alias", "transform"]
  .record .writeMethod <|
    match m with
    | .unset => members "" .unset
    | .physical b => members "physical" (.flag b)
    | .readOnly b => members "read_only" (.flag b)
    | .alias r => members "alias" r.toDatum
    | .transform t => members "transform" t.toDatum

def Placement.toDatum (p : Placement) : Datum :=
  .record .fieldLocation
    [("start", ofOption Expression.toDatum p.start), ("size", ofOption Expression.toDatum p.size),
      placeMember p.location]

def Field.toDatum (f : Field) : Datum :=
  .record .field
    [("location", ofOption Placement.toDatum f.placement),
      ("type", ofOption TypeSpec.toDatum f.type),
      ("read_transform", ofOption Expression.toDatum f.readTransform),
      ("write_method", ofOption WriteMethod.toDatum f.writeMethod),
      ("name", ofOption NameDefinition.toDatum f.name),
      ("abbreviation", ofOption Word.toDatum f.abbreviation),
      ("attribute", ofParts Attribute.toDatum f.attributes),
      ("documentation", ofParts Documentation.toDatum f.documentation),
      ("existence_condition", ofOption Expression.toDatum f.existenceCondition),
      placeMember f.location]

def Structure.toDatum (s : Structure) : Datum :=
  .record .structureBody
    [("field", ofParts Field.toDatum s.fields),
      ("fields_in_dependency_order", ofParts .integer s.dependencyOrder), placeMember s.location]

def External.toDatum (e : External) : Datum :=
  .record .external [placeMember e.location]

def EnumValue.toDatum (v : EnumValue) : Datum :=
  .record .enumValue
    [("name", ofOption NameDefinition.toDatum v.name),
      ("value", ofOption Expression.toDatum v.value),
      ("documentation", ofParts Documentation.toDatum v.documentation),
      ("attribute", ofParts Attribute.toDatum v.attributes), placeMember v.location]

def Enumeration.toDatum (e : Enumeration) : Datum :=
  .record .enumBody [("value", ofParts EnumValue.toDatum e.values), placeMember e.location]

def Import.toDatum (i : Import) : Datum :=
  .record .importLine
    [("file_name", ofOption StringConstant.toDatum i.fileName),
      ("local_name", ofOption Word.toDatum i.localName), placeMember i.location]

def RuntimeParameter.toDatum (p : RuntimeParameter) : Datum :=
  .record .runtimeParameter
    [("name", ofOption NameDefinition.toDatum p.name),
      ("type", ofOption ExpressionType.toDatum p.type),
      ("physical_type_alias", ofOption TypeSpec.toDatum p.physicalType), placeMember p.location]

def TypeBody.members (b : TypeBody) : List (String × Datum) :=
  let members := chosen ["external", "enumeration", "structure"]
  match b with
  | .unset => members "" .unset
  | .external e => members "external" e.toDatum
  | .enumeration e => members "enumeration" e.toDatum
  | .record s => members "structure" s.toDatum

mutual

def TypeDefinition.toDatum : TypeDefinition → Datum
  | ⟨body, name, properties, lines, subtypes, unit, parameters, location⟩ =>
    .record .typeDefinition <|
      body.members ++
      [("name", ofOption NameDefinition.toDatum name),
        ("attribute", ofParts Attribute.toDatum properties),
        ("documentation", ofParts Documentation.toDatum lines),
        ("subtype", .list (TypeDefinition.allToData subtypes)),
        ("addressable_unit", ofOption .unit unit),
        ("runtime_parameter", ofParts RuntimeParameter.toDatum parameters),
        placeMember location]

def TypeDefinition.allToData : List TypeDefinition → List Datum
  | [] => []
  | t :: rest => t.toDatum :: TypeDefinition.allToData rest

end

def Module.toDatum (m : Module) : Datum :=
  .record .moduleFile
    [("attribute", ofParts Attribute.toDatum m.attributes),
      ("type", ofParts TypeDefinition.toDatum m.types),
      ("documentation", ofParts Documentation.toDatum m.documentation),
      ("foreign_import", ofParts Import.toDatum m.imports),
      ("source_text", ofOption .text m.sourceText), placeMember m.location,
      ("source_file_name", ofOption .text m.fileName)]

def Program.toDatum (p : Program) : Datum :=
  .record .program [("module", ofParts Module.toDatum p.modules)]

end BinaryLayout.IR
