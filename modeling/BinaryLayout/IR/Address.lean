import BinaryLayout.IR.Node

/-!
# Addresses

An address leads from a node to one below it.  `Node.at?` follows an address, and `Node.update`
replaces the node that an address leads to.
-/

namespace BinaryLayout.IR

def putAt {α : Type} (project : Node → Option α) (list : List α) (index : Nat) (child : Node) :
    List α :=
  match project child with
  | some a => list.set index a
  | none => list

def putIn {α : Type} (project : Node → Option α) (part : Option α) (child : Node) : Option α :=
  match project child with
  | some a => some a
  | none => part

namespace Node

def word? : Node → Option Word
  | .word w => some w
  | _ => none

def canonicalName? : Node → Option CanonicalName
  | .canonicalName n => some n
  | _ => none

def nameDefinition? : Node → Option NameDefinition
  | .nameDefinition n => some n
  | _ => none

def reference? : Node → Option Reference
  | .reference r => some r
  | _ => none

def fieldReference? : Node → Option FieldReference
  | .fieldReference r => some r
  | _ => none

def expressionType? : Node → Option ExpressionType
  | .expressionType t => some t
  | _ => none

def expression? : Node → Option Expression
  | .expression e => some e
  | _ => none

def arrayType? : Node → Option ArrayType
  | .arrayType t => some t
  | _ => none

def atomicType? : Node → Option AtomicType
  | .atomicType t => some t
  | _ => none

def type? : Node → Option TypeSpec
  | .type t => some t
  | _ => none

def property? : Node → Option Attribute
  | .property a => some a
  | _ => none

def attributeValue? : Node → Option AttributeValue
  | .attributeValue v => some v
  | _ => none

def placement? : Node → Option Placement
  | .placement p => some p
  | _ => none

def writeMethod? : Node → Option WriteMethod
  | .writeMethod m => some m
  | _ => none

def field? : Node → Option Field
  | .field f => some f
  | _ => none

def structure? : Node → Option Structure
  | .structureBody s => some s
  | _ => none

def enumValue? : Node → Option EnumValue
  | .enumValue v => some v
  | _ => none

def enumeration? : Node → Option Enumeration
  | .enumBody e => some e
  | _ => none

def import? : Node → Option Import
  | .importLine i => some i
  | _ => none

def parameter? : Node → Option RuntimeParameter
  | .parameter p => some p
  | _ => none

def typeDefinition? : Node → Option TypeDefinition
  | .typeDefinition t => some t
  | _ => none

def module? : Node → Option Module
  | .moduleFile m => some m
  | _ => none

def program? : Node → Option Program
  | .program p => some p
  | _ => none

def child? (s : Step) (n : Node) : Option Node :=
  (n.children.find? (·.1 == s)).map (·.2)

def at? : Address → Node → Option Node
  | [], n => some n
  | s :: rest, n => (n.child? s).bind (at? rest)

def expressionWith (field : String) (c : Node) (e : Expression) : Expression :=
  match field, c, e with
  | "constant_reference", .reference r, .constantReference _ note => .constantReference r note
  | "builtin_reference", .reference r, .builtinReference _ note => .builtinReference r note
  | "function", .call used, .function _ _ _ _ note => .ofCall used note
  | "field_reference", .fieldReference r, .fieldReference _ note => .fieldReference r note
  | "type", .expressionType t, e => e.withType (some t)
  | _, _, e => e

def typeWith (field : String) (c : Node) (t : TypeSpec) : TypeSpec :=
  match field, c, t with
  | "atomic_type", .atomicType atom, .atomic _ size location => .atomic atom size location
  | "array_type", .arrayType a, .array _ _ _ size location =>
    .array a.base a.size a.location size location
  | "size_in_bits", .expression e, .unset _ location => .unset (some e) location
  | "size_in_bits", .expression e, .atomic atom _ location => .atomic atom (some e) location
  | "size_in_bits", .expression e, .array base count place _ location =>
    .array base count place (some e) location
  | _, _, t => t

def fieldWith (s : Step) (c : Node) (f : Field) : Field :=
  match s.field with
  | "location" => { f with placement := putIn placement? f.placement c }
  | "type" => { f with type := putIn type? f.type c }
  | "read_transform" => { f with readTransform := putIn expression? f.readTransform c }
  | "write_method" => { f with writeMethod := putIn writeMethod? f.writeMethod c }
  | "name" => { f with name := putIn nameDefinition? f.name c }
  | "abbreviation" => { f with abbreviation := putIn word? f.abbreviation c }
  | "existence_condition" =>
    { f with existenceCondition := putIn expression? f.existenceCondition c }
  | "attribute" => { f with attributes := putAt property? f.attributes s.index c }
  | _ => f

def definitionWith (s : Step) (c : Node) (t : TypeDefinition) : TypeDefinition :=
  match s.field, c with
  | "external", .external e => { t with body := .external e }
  | "enumeration", .enumBody e => { t with body := .enumeration e }
  | "structure", .structureBody b => { t with body := .record b }
  | "name", c => { t with name := putIn nameDefinition? t.name c }
  | "attribute", c => { t with attributes := putAt property? t.attributes s.index c }
  | "subtype", c => { t with subtypes := putAt typeDefinition? t.subtypes s.index c }
  | "runtime_parameter", c => { t with parameters := putAt parameter? t.parameters s.index c }
  | _, _ => t

/-- A node with one of its children replaced.  A child of the wrong kind changes nothing. -/
def withChild (parent : Node) (s : Step) (c : Node) : Node :=
  match parent with
  | .call used =>
    if s.field = "args" then .call { used with args := putAt expression? used.args s.index c }
    else .call used
  | .nameDefinition n =>
    if s.field = "canonical_name" then
      .nameDefinition { n with canonicalName := putIn canonicalName? n.canonicalName c }
    else .nameDefinition n
  | .reference r =>
    if s.field = "canonical_name" then
      .reference { r with canonicalName := putIn canonicalName? r.canonicalName c }
    else .reference r
  | .fieldReference r => .fieldReference { r with path := putAt reference? r.path s.index c }
  | .enumType t => .enumType { t with name := putIn reference? t.name c }
  | .expressionType t =>
    match t, c with
    | .enumeration _, .enumType known => .expressionType (.enumeration known)
    | t, _ => .expressionType t
  | .expression e => .expression (expressionWith s.field c e)
  | .arrayType t =>
    match s.field, c with
    | "base_type", .type base => .arrayType { t with base := some base }
    | "element_count", .expression e => .arrayType { t with size := .count e }
    | _, _ => .arrayType t
  | .atomicType t =>
    if s.field = "reference" then
      .atomicType { t with reference := putIn reference? t.reference c }
    else .atomicType { t with arguments := putAt expression? t.arguments s.index c }
  | .type t => .type (typeWith s.field c t)
  | .attributeValue v =>
    match v, c with
    | .expression _ l, .expression e => .attributeValue (.expression e l)
    | v, _ => .attributeValue v
  | .property a =>
    if s.field = "value" then .property { a with value := putIn attributeValue? a.value c }
    else .property a
  | .writeTransform t =>
    if s.field = "function_body" then
      .writeTransform { t with body := putIn expression? t.body c }
    else .writeTransform { t with destination := putIn fieldReference? t.destination c }
  | .writeMethod m =>
    match m, c with
    | .alias _, .fieldReference r => .writeMethod (.alias r)
    | .transform _, .writeTransform t => .writeMethod (.transform t)
    | m, _ => .writeMethod m
  | .placement p =>
    if s.field = "start" then .placement { p with start := putIn expression? p.start c }
    else .placement { p with size := putIn expression? p.size c }
  | .field f => .field (fieldWith s c f)
  | .structureBody b => .structureBody { b with fields := putAt field? b.fields s.index c }
  | .enumValue v =>
    match s.field with
    | "name" => .enumValue { v with name := putIn nameDefinition? v.name c }
    | "value" => .enumValue { v with value := putIn expression? v.value c }
    | "attribute" => .enumValue { v with attributes := putAt property? v.attributes s.index c }
    | _ => .enumValue v
  | .enumBody e => .enumBody { e with values := putAt enumValue? e.values s.index c }
  | .parameter p =>
    match s.field with
    | "name" => .parameter { p with name := putIn nameDefinition? p.name c }
    | "type" => .parameter { p with type := putIn expressionType? p.type c }
    | "physical_type_alias" =>
      .parameter { p with physicalType := putIn type? p.physicalType c }
    | _ => .parameter p
  | .typeDefinition t => .typeDefinition (definitionWith s c t)
  | .moduleFile m =>
    match s.field with
    | "attribute" => .moduleFile { m with attributes := putAt property? m.attributes s.index c }
    | "type" => .moduleFile { m with types := putAt typeDefinition? m.types s.index c }
    | "foreign_import" => .moduleFile { m with imports := putAt import? m.imports s.index c }
    | _ => .moduleFile m
  | .program p => .program { p with modules := putAt module? p.modules s.index c }
  | n => n

def update : Address → (Node → Node) → Node → Node
  | [], change, n => change n
  | s :: rest, change, n =>
    match n.child? s with
    | some c => n.withChild s (update rest change c)
    | none => n

end Node

namespace Program

def at? (p : Program) (address : Address) : Option Node :=
  (Node.program p).at? address

def put (p : Program) (address : Address) (n : Node) : Program :=
  (((Node.program p).update address fun _ => n).program?).getD p

end Program

end BinaryLayout.IR
