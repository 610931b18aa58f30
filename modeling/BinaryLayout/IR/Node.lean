import BinaryLayout.IR.Schema

/-!
# Nodes and their parts

A node is any part of a program that has a kind of its own.  `Node.children` gives the nodes
directly below one, each with the step that leads to it: first the fields with a single node, in
the order of the schema, then those with a list.

Main statement: every child is smaller than its node, so that whatever goes down from node to
child comes to an end.
-/

namespace BinaryLayout.IR

/-- A part of a program. -/
inductive Node where
  | word (w : Word)
  | string (s : StringConstant)
  | documentation (d : Documentation)
  | booleanConstant (b : BooleanConstant)
  | blank (b : Blank)
  | numericConstant (n : NumericConstant)
  | call (c : Call)
  | canonicalName (n : CanonicalName)
  | nameDefinition (n : NameDefinition)
  | reference (r : Reference)
  | fieldReference (r : FieldReference)
  | compoundType
  | integerType (t : IntegerType)
  | booleanType (t : BooleanType)
  | enumType (t : EnumType)
  | expressionType (t : ExpressionType)
  | expression (e : Expression)
  | arrayType (t : ArrayType)
  | atomicType (t : AtomicType)
  | type (t : TypeSpec)
  | attributeValue (v : AttributeValue)
  | property (a : Attribute)
  | writeTransform (t : WriteTransform)
  | writeMethod (m : WriteMethod)
  | placement (p : Placement)
  | field (f : Field)
  | structureBody (s : Structure)
  | external (e : External)
  | enumValue (v : EnumValue)
  | enumBody (e : Enumeration)
  | importLine (i : Import)
  | parameter (p : RuntimeParameter)
  | typeDefinition (t : TypeDefinition)
  | moduleFile (m : Module)
  | program (p : Program)

/-- The way from a node to a child: a field, and an index if the field holds a list. -/
structure Step where
  field : String
  index : Nat := 0
deriving DecidableEq

/-- The way from a node to one below it. -/
abbrev Address := List Step

def childIn {α : Type} (field : String) (inject : α → Node) : Option α → List (Step × Node)
  | some a => [(⟨field, 0⟩, inject a)]
  | none => []

def childrenIn {α : Type} (field : String) (inject : α → Node) :
    Nat → List α → List (Step × Node)
  | _, [] => []
  | index, a :: rest => (⟨field, index⟩, inject a) :: childrenIn field inject (index + 1) rest

section Children

variable {α : Type} {field : String} {inject : α → Node} {part : Option α} {index : Nat}
  {parts : List α} {s : Step} {child : Node} {holds : Step × Node → Prop}

theorem mem_childIn_iff :
    (s, child) ∈ childIn field inject part ↔
      s = ⟨field, 0⟩ ∧ ∃ a, part = some a ∧ child = inject a := by
  cases part <;> simp [childIn]

theorem mem_childrenIn_from :
    (s, child) ∈ childrenIn field inject index parts ↔
      ∃ i a, s = ⟨field, index + i⟩ ∧ parts[i]? = some a ∧ child = inject a := by
  induction parts generalizing index with
  | nil => simp [childrenIn]
  | cons head tail ih =>
    rw [childrenIn, List.mem_cons, ih]
    constructor
    · rintro (here | ⟨i, a, rfl, found, rfl⟩)
      · cases here
        exact ⟨0, head, rfl, rfl, rfl⟩
      · exact ⟨i + 1, a, by rw [Nat.add_assoc, Nat.add_comm 1], found, rfl⟩
    · rintro ⟨_ | i, a, rfl, found, rfl⟩
      · cases found
        exact .inl rfl
      · exact .inr ⟨i, a, by rw [Nat.add_assoc, Nat.add_comm 1], found, rfl⟩

theorem mem_childrenIn_iff :
    (s, child) ∈ childrenIn field inject 0 parts ↔
      ∃ i a, s = ⟨field, i⟩ ∧ parts[i]? = some a ∧ child = inject a := by
  simp only [mem_childrenIn_from, Nat.zero_add]

theorem forall_childIn (each : ∀ a, part = some a → holds (⟨field, 0⟩, inject a)) :
    ∀ child ∈ childIn field inject part, holds child := by
  rintro ⟨s, child⟩ member
  rcases mem_childIn_iff.1 member with ⟨rfl, a, there, rfl⟩
  exact each a there

theorem forall_childrenIn (each : ∀ i a, parts[i]? = some a → holds (⟨field, i⟩, inject a)) :
    ∀ child ∈ childrenIn field inject 0 parts, holds child := by
  rintro ⟨s, child⟩ member
  rcases mem_childrenIn_iff.1 member with ⟨i, a, rfl, there, rfl⟩
  exact each i a there

variable [SizeOf α] {bound : Nat}

theorem size_childIn (small : ∀ a, sizeOf a < sizeOf part → sizeOf (inject a) < bound) :
    ∀ child ∈ childIn field inject part, sizeOf child.2 < bound :=
  forall_childIn fun a there => small a (by simp [there])

theorem size_childrenIn (small : ∀ a, sizeOf a < sizeOf parts → sizeOf (inject a) < bound) :
    ∀ child ∈ childrenIn field inject 0 parts, sizeOf child.2 < bound :=
  forall_childrenIn fun _ a there => small a (List.sizeOf_lt_of_mem (List.mem_of_getElem? there))

end Children

theorem Expression.sizeOf_type_lt (e : Expression) (t : ExpressionType)
    (small : sizeOf t < sizeOf e.type) : sizeOf t < sizeOf e := by
  rcases e with n | ⟨_, n⟩ | ⟨_, n⟩ | ⟨_, _, _, _, n⟩ | ⟨_, n⟩ | ⟨_, n⟩ | ⟨_, n⟩ <;>
  · cases n
    simp [Expression.type, Expression.note] at *
    omega

namespace Node

def kind : Node → Kind
  | .word _ => .word
  | .string _ => .string
  | .documentation _ => .documentation
  | .booleanConstant _ => .booleanConstant
  | .blank _ => .empty
  | .numericConstant _ => .numericConstant
  | .call _ => .function
  | .canonicalName _ => .canonicalName
  | .nameDefinition _ => .nameDefinition
  | .reference _ => .reference
  | .fieldReference _ => .fieldReference
  | .compoundType => .compoundType
  | .integerType _ => .integerType
  | .booleanType _ => .booleanType
  | .enumType _ => .enumType
  | .expressionType _ => .expressionType
  | .expression _ => .expression
  | .arrayType _ => .arrayType
  | .atomicType _ => .atomicType
  | .type _ => .type
  | .attributeValue _ => .attributeValue
  | .property _ => .property
  | .writeTransform _ => .writeTransform
  | .writeMethod _ => .writeMethod
  | .placement _ => .fieldLocation
  | .field _ => .field
  | .structureBody _ => .structureBody
  | .external _ => .external
  | .enumValue _ => .enumValue
  | .enumBody _ => .enumBody
  | .importLine _ => .importLine
  | .parameter _ => .runtimeParameter
  | .typeDefinition _ => .typeDefinition
  | .moduleFile _ => .moduleFile
  | .program _ => .program

def location : Node → Option Location
  | .word w => w.location
  | .string s => s.location
  | .documentation d => d.location
  | .booleanConstant b => b.location
  | .blank b => b.location
  | .numericConstant n => n.location
  | .call c => c.location
  | .nameDefinition n => n.location
  | .reference r => r.location
  | .fieldReference r => r.location
  | .expression e => e.location
  | .arrayType t => t.location
  | .atomicType t => t.location
  | .type t => t.location
  | .attributeValue v => v.location
  | .property a => a.location
  | .placement p => p.location
  | .field f => f.location
  | .structureBody s => s.location
  | .external e => e.location
  | .enumValue v => v.location
  | .enumBody e => e.location
  | .importLine i => i.location
  | .parameter p => p.location
  | .typeDefinition t => t.location
  | .moduleFile m => m.location
  | .canonicalName _ | .compoundType | .integerType _ | .booleanType _ | .enumType _
  | .expressionType _ | .writeTransform _ | .writeMethod _ | .program _ => none

def formOf : Expression → List (Step × Node)
  | .unset _ => []
  | .constant value _ => [(⟨"constant", 0⟩, .numericConstant value)]
  | .constantReference r _ => [(⟨"constant_reference", 0⟩, .reference r)]
  | .function operator args name location _ =>
    [(⟨"function", 0⟩, .call ⟨operator, args, name, location⟩)]
  | .fieldReference r _ => [(⟨"field_reference", 0⟩, .fieldReference r)]
  | .booleanConstant value _ => [(⟨"boolean_constant", 0⟩, .booleanConstant value)]
  | .builtinReference r _ => [(⟨"builtin_reference", 0⟩, .reference r)]

def children : Node → List (Step × Node)
  | .call c =>
    childIn "function_name" .word c.name ++ childrenIn "args" .expression 0 c.args
  | .nameDefinition n =>
    childIn "name" .word n.name ++ childIn "canonical_name" .canonicalName n.canonicalName
  | .reference r =>
    childIn "canonical_name" .canonicalName r.canonicalName ++
      childrenIn "source_name" .word 0 r.sourceName
  | .fieldReference r => childrenIn "path" .reference 0 r.path
  | .enumType t => childIn "name" .reference t.name
  | .expressionType t =>
    match t with
    | .unset => []
    | .compound => [(⟨"opaque", 0⟩, .compoundType)]
    | .integer bounds => [(⟨"integer", 0⟩, .integerType bounds)]
    | .boolean known => [(⟨"boolean", 0⟩, .booleanType known)]
    | .enumeration known => [(⟨"enumeration", 0⟩, .enumType known)]
  | .expression e => formOf e ++ childIn "type" .expressionType e.type
  | .arrayType t =>
    childIn "base_type" .type t.base ++
      match t.size with
      | .unset => []
      | .count e => [(⟨"element_count", 0⟩, .expression e)]
      | .automatic b => [(⟨"automatic", 0⟩, .blank b)]
  | .atomicType t =>
    childIn "reference" .reference t.reference ++
      childrenIn "runtime_parameter" .expression 0 t.arguments
  | .type t =>
    match t with
    | .unset size _ => childIn "size_in_bits" .expression size
    | .atomic atom size _ =>
      (⟨"atomic_type", 0⟩, .atomicType atom) :: childIn "size_in_bits" .expression size
    | .array base count location size _ =>
      (⟨"array_type", 0⟩, .arrayType ⟨base, count, location⟩) ::
        childIn "size_in_bits" .expression size
  | .attributeValue v =>
    match v with
    | .unset _ => []
    | .expression e _ => [(⟨"expression", 0⟩, .expression e)]
    | .string s _ => [(⟨"string_constant", 0⟩, .string s)]
  | .property a =>
    childIn "name" .word a.name ++ childIn "value" .attributeValue a.value ++
      childIn "back_end" .word a.backEnd
  | .writeTransform t =>
    childIn "function_body" .expression t.body ++
      childIn "destination" .fieldReference t.destination
  | .writeMethod m =>
    match m with
    | .alias r => [(⟨"alias", 0⟩, .fieldReference r)]
    | .transform t => [(⟨"transform", 0⟩, .writeTransform t)]
    | _ => []
  | .placement p => childIn "start" .expression p.start ++ childIn "size" .expression p.size
  | .field f =>
    childIn "location" .placement f.placement ++ childIn "type" .type f.type ++
      childIn "read_transform" .expression f.readTransform ++
      childIn "write_method" .writeMethod f.writeMethod ++
      childIn "name" .nameDefinition f.name ++ childIn "abbreviation" .word f.abbreviation ++
      childIn "existence_condition" .expression f.existenceCondition ++
      childrenIn "attribute" .property 0 f.attributes ++
      childrenIn "documentation" .documentation 0 f.documentation
  | .structureBody s => childrenIn "field" .field 0 s.fields
  | .enumValue v =>
    childIn "name" .nameDefinition v.name ++ childIn "value" .expression v.value ++
      childrenIn "documentation" .documentation 0 v.documentation ++
      childrenIn "attribute" .property 0 v.attributes
  | .enumBody e => childrenIn "value" .enumValue 0 e.values
  | .importLine i =>
    childIn "file_name" .string i.fileName ++ childIn "local_name" .word i.localName
  | .parameter p =>
    childIn "name" .nameDefinition p.name ++ childIn "type" .expressionType p.type ++
      childIn "physical_type_alias" .type p.physicalType
  | .typeDefinition t =>
    (match t.body with
      | .unset => []
      | .external e => [(⟨"external", 0⟩, .external e)]
      | .enumeration e => [(⟨"enumeration", 0⟩, .enumBody e)]
      | .record s => [(⟨"structure", 0⟩, .structureBody s)]) ++
      childIn "name" .nameDefinition t.name ++ childrenIn "attribute" .property 0 t.attributes ++
      childrenIn "documentation" .documentation 0 t.documentation ++
      childrenIn "subtype" .typeDefinition 0 t.subtypes ++
      childrenIn "runtime_parameter" .parameter 0 t.parameters
  | .moduleFile m =>
    childrenIn "attribute" .property 0 m.attributes ++
      childrenIn "type" .typeDefinition 0 m.types ++
      childrenIn "documentation" .documentation 0 m.documentation ++
      childrenIn "foreign_import" .importLine 0 m.imports
  | .program p => childrenIn "module" .moduleFile 0 p.modules
  | .word _ | .string _ | .documentation _ | .booleanConstant _ | .blank _ | .numericConstant _
  | .canonicalName _ | .compoundType | .integerType _ | .booleanType _ | .external _ => []

theorem sizeOf_lt_of_mem_formOf (e : Expression) :
    ∀ child ∈ formOf e, sizeOf child.2 < 1 + sizeOf e := by
  rcases e with n | ⟨_, n⟩ | ⟨_, n⟩ | ⟨_, _, _, _, n⟩ | ⟨_, n⟩ | ⟨_, n⟩ | ⟨_, n⟩ <;>
  · cases n
    simp [formOf]
    try omega

theorem sizeOf_lt_of_mem_children (n : Node) :
    ∀ child ∈ n.children, sizeOf child.2 < sizeOf n := by
  cases n with
  | expression e =>
    simp only [children, List.forall_mem_append]
    refine ⟨by simpa using sizeOf_lt_of_mem_formOf e, size_childIn fun t small => ?_⟩
    simpa using e.sizeOf_type_lt t small
  | expressionType t | writeMethod t => cases t <;> simp [children]
  | attributeValue v => cases v <;> simp [children] <;> omega
  | arrayType t =>
    obtain ⟨base, size, location⟩ := t
    simp only [children, List.forall_mem_append]
    refine ⟨size_childIn ?_, ?_⟩
    · intro a small; simp at *; omega
    · cases size <;> simp <;> omega
  | type t =>
    have sized : ∀ child ∈ childIn "size_in_bits" .expression t.sizeInBits,
        sizeOf child.2 < sizeOf (Node.type t) := by
      refine size_childIn fun e small => ?_
      cases t <;> (simp [TypeSpec.sizeInBits] at *; omega)
    cases t with
    | unset => exact sized
    | atomic => exact List.forall_mem_cons.2 ⟨by simp; omega, sized⟩
    | array base count place size _ =>
      have positive : 0 < sizeOf size := by
        cases size with
        | none => simp
        | some _ => simp only [Option.some.sizeOf_spec]; omega
      exact List.forall_mem_cons.2 ⟨by simp; omega, sized⟩
  | typeDefinition t =>
    obtain ⟨body, name, properties, lines, subtypes, unit, parameters, place⟩ := t
    simp only [children, List.forall_mem_append, and_assoc]
    refine ⟨?_, size_childIn ?_, size_childrenIn ?_, size_childrenIn ?_, size_childrenIn ?_,
      size_childrenIn ?_⟩
    · cases body <;> simp <;> omega
    all_goals intro a small; simp at *; omega
  | call part | nameDefinition part | reference part | fieldReference part | enumType part
  | atomicType part | property part | writeTransform part | placement part | field part
  | structureBody part | enumValue part | enumBody part | importLine part | parameter part
  | moduleFile part | program part =>
    cases part
    simp only [children, List.forall_mem_append]
    repeat' apply And.intro
    all_goals first | apply size_childIn | apply size_childrenIn
    all_goals intro a small; simp at *; omega
  | _ => simp [children]

end Node

end BinaryLayout.IR
