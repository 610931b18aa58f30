import BinaryLayout.IR.Basic

/-!
# The schema of the representation

Every kind of node has fields in a fixed order.  A field holds a scalar or a node, or a list of
them.  Some fields are members of a choice, of which at most one is set.
-/

namespace BinaryLayout.IR

inductive Kind where
  | word
  | string
  | documentation
  | booleanConstant
  | empty
  | numericConstant
  | function
  | canonicalName
  | nameDefinition
  | reference
  | fieldReference
  | compoundType
  | integerType
  | booleanType
  | enumType
  | expressionType
  | expression
  | arrayType
  | atomicType
  | type
  | attributeValue
  | property
  | writeTransform
  | writeMethod
  | fieldLocation
  | field
  | structureBody
  | external
  | enumValue
  | enumBody
  | importLine
  | runtimeParameter
  | typeDefinition
  | moduleFile
  | program
deriving DecidableEq

inductive Scalar where
  | text
  | flag
  | integer
  | location
  | operator
  | unit
deriving DecidableEq

inductive FieldType where
  | scalar (s : Scalar)
  | node (k : Kind)
deriving DecidableEq

/-- How many values a field holds. -/
inductive Container where
  /-- Always one. -/
  | single
  /-- One, or it is not set. -/
  | optional
  | list
deriving DecidableEq

/-- A field of a kind of nodes. -/
structure FieldSpec where
  name : String
  type : FieldType
  container : Container := .optional
  /-- The choice that the field is a member of. -/
  choice : Option String := none
deriving DecidableEq

namespace FieldSpec

def isList (s : FieldSpec) : Bool :=
  s.container == .list

def kind? (s : FieldSpec) : Option Kind :=
  match s.type with
  | .node k => some k
  | .scalar _ => none

end FieldSpec

namespace Kind

def name : Kind → String
  | .word => "Word"
  | .string => "String"
  | .documentation => "Documentation"
  | .booleanConstant => "BooleanConstant"
  | .empty => "Empty"
  | .numericConstant => "NumericConstant"
  | .function => "Function"
  | .canonicalName => "CanonicalName"
  | .nameDefinition => "NameDefinition"
  | .reference => "Reference"
  | .fieldReference => "FieldReference"
  | .compoundType => "OpaqueType"
  | .integerType => "IntegerType"
  | .booleanType => "BooleanType"
  | .enumType => "EnumType"
  | .expressionType => "ExpressionType"
  | .expression => "Expression"
  | .arrayType => "ArrayType"
  | .atomicType => "AtomicType"
  | .type => "Type"
  | .attributeValue => "AttributeValue"
  | .property => "Attribute"
  | .writeTransform => "WriteTransform"
  | .writeMethod => "WriteMethod"
  | .fieldLocation => "FieldLocation"
  | .field => "Field"
  | .structureBody => "Structure"
  | .external => "External"
  | .enumValue => "EnumValue"
  | .enumBody => "Enum"
  | .importLine => "Import"
  | .runtimeParameter => "RuntimeParameter"
  | .typeDefinition => "TypeDefinition"
  | .moduleFile => "Module"
  | .program => "EmbossIr"

def all : List Kind :=
  [.word, .string, .documentation, .booleanConstant, .empty, .numericConstant, .function,
    .canonicalName, .nameDefinition, .reference, .fieldReference, .compoundType, .integerType,
    .booleanType, .enumType, .expressionType, .expression, .arrayType, .atomicType, .type,
    .attributeValue, .property, .writeTransform, .writeMethod, .fieldLocation, .field,
    .structureBody, .external, .enumValue, .enumBody, .importLine, .runtimeParameter,
    .typeDefinition, .moduleFile, .program]

def ofName? (s : String) : Option Kind :=
  all.find? (·.name == s)

def scalar (name : String) (s : Scalar) : FieldSpec :=
  ⟨name, .scalar s, .optional, none⟩

def node (name : String) (k : Kind) : FieldSpec :=
  ⟨name, .node k, .optional, none⟩

def nodes (name : String) (k : Kind) : FieldSpec :=
  ⟨name, .node k, .list, none⟩

def member (choice name : String) (k : Kind) : FieldSpec :=
  ⟨name, .node k, .optional, some choice⟩

def place : FieldSpec :=
  scalar "source_location" .location

def fields : Kind → List FieldSpec
  | .word => [scalar "text" .text, place]
  | .string => [scalar "text" .text, place]
  | .documentation => [scalar "text" .text, place]
  | .booleanConstant => [scalar "value" .flag, place]
  | .empty => [place]
  | .numericConstant => [scalar "value" .text, place]
  | .function =>
    [scalar "function" .operator, nodes "args" .expression, node "function_name" .word, place]
  | .canonicalName =>
    [⟨"module_file", .scalar .text, .single, none⟩,
      ⟨"object_path", .scalar .text, .list, none⟩]
  | .nameDefinition =>
    [node "name" .word, node "canonical_name" .canonicalName, scalar "is_anonymous" .flag, place]
  | .reference =>
    [node "canonical_name" .canonicalName, nodes "source_name" .word,
      scalar "is_local_name" .flag, place]
  | .fieldReference => [nodes "path" .reference, place]
  | .compoundType => []
  | .integerType =>
    [scalar "modulus" .text, scalar "modular_value" .text, scalar "minimum_value" .text,
      scalar "maximum_value" .text]
  | .booleanType => [scalar "value" .flag]
  | .enumType => [node "name" .reference, scalar "value" .text]
  | .expressionType =>
    [member "type" "opaque" .compoundType, member "type" "integer" .integerType,
      member "type" "boolean" .booleanType, member "type" "enumeration" .enumType]
  | .expression =>
    [member "expression" "constant" .numericConstant,
      member "expression" "constant_reference" .reference,
      member "expression" "function" .function,
      member "expression" "field_reference" .fieldReference,
      member "expression" "boolean_constant" .booleanConstant,
      member "expression" "builtin_reference" .reference,
      node "type" .expressionType, place]
  | .arrayType =>
    [node "base_type" .type, member "size" "element_count" .expression,
      member "size" "automatic" .empty, place]
  | .atomicType =>
    [node "reference" .reference, nodes "runtime_parameter" .expression, place]
  | .type =>
    [member "type" "atomic_type" .atomicType, member "type" "array_type" .arrayType,
      node "size_in_bits" .expression, place]
  | .attributeValue =>
    [member "value" "expression" .expression, member "value" "string_constant" .string, place]
  | .property =>
    [node "name" .word, node "value" .attributeValue, node "back_end" .word,
      scalar "is_default" .flag, place]
  | .writeTransform =>
    [node "function_body" .expression, node "destination" .fieldReference]
  | .writeMethod =>
    [⟨"physical", .scalar .flag, .optional, some "method"⟩,
      ⟨"read_only", .scalar .flag, .optional, some "method"⟩,
      member "method" "alias" .fieldReference, member "method" "transform" .writeTransform]
  | .fieldLocation => [node "start" .expression, node "size" .expression, place]
  | .field =>
    [node "location" .fieldLocation, node "type" .type, node "read_transform" .expression,
      node "write_method" .writeMethod, node "name" .nameDefinition, node "abbreviation" .word,
      nodes "attribute" .property, nodes "documentation" .documentation,
      node "existence_condition" .expression, place]
  | .structureBody =>
    [nodes "field" .field, ⟨"fields_in_dependency_order", .scalar .integer, .list, none⟩, place]
  | .external => [place]
  | .enumValue =>
    [node "name" .nameDefinition, node "value" .expression,
      nodes "documentation" .documentation, nodes "attribute" .property, place]
  | .enumBody => [nodes "value" .enumValue, place]
  | .importLine => [node "file_name" .string, node "local_name" .word, place]
  | .runtimeParameter =>
    [node "name" .nameDefinition, node "type" .expressionType,
      node "physical_type_alias" .type, place]
  | .typeDefinition =>
    [member "type" "external" .external, member "type" "enumeration" .enumBody,
      member "type" "structure" .structureBody, node "name" .nameDefinition,
      nodes "attribute" .property, nodes "documentation" .documentation,
      nodes "subtype" .typeDefinition, scalar "addressable_unit" .unit,
      nodes "runtime_parameter" .runtimeParameter, place]
  | .moduleFile =>
    [nodes "attribute" .property, nodes "type" .typeDefinition,
      nodes "documentation" .documentation, nodes "foreign_import" .importLine,
      scalar "source_text" .text, place, scalar "source_file_name" .text]
  | .program => [nodes "module" .moduleFile]

def field? (k : Kind) (name : String) : Option FieldSpec :=
  k.fields.find? (·.name == name)

end Kind

namespace Operator

def names : List (Operator × String) :=
  [(.unknown, "UNKNOWN"), (.addition, "ADDITION"), (.subtraction, "SUBTRACTION"),
    (.multiplication, "MULTIPLICATION"), (.equality, "EQUALITY"), (.inequality, "INEQUALITY"),
    (.and, "AND"), (.or, "OR"), (.less, "LESS"), (.lessOrEqual, "LESS_OR_EQUAL"),
    (.greater, "GREATER"), (.greaterOrEqual, "GREATER_OR_EQUAL"), (.choice, "CHOICE"),
    (.maximum, "MAXIMUM"), (.presence, "PRESENCE"), (.upperBound, "UPPER_BOUND"),
    (.lowerBound, "LOWER_BOUND")]

def name (o : Operator) : String :=
  (names.lookup o).getD ""

def number (o : Operator) : Nat :=
  (names.map (·.1)).idxOf o

def ofNumber? (n : Int) : Option Operator :=
  if n < 0 then none else (names[n.toNat]?).map (·.1)

def ofName? (s : String) : Option Operator :=
  (names.find? (·.2 == s)).map (·.1)

end Operator

namespace AddressableUnit

def names : List (AddressableUnit × String) :=
  [(.none, "NONE"), (.bit, "BIT"), (.byte, "BYTE")]

def name (u : AddressableUnit) : String :=
  (names.lookup u).getD ""

def ofBits? (n : Int) : Option AddressableUnit :=
  [AddressableUnit.none, .bit, .byte].find? fun u => (u.bits : Int) == n

def ofName? (s : String) : Option AddressableUnit :=
  (names.find? (·.2 == s)).map (·.1)

end AddressableUnit

end BinaryLayout.IR
