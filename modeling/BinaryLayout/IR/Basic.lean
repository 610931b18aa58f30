import BinaryLayout.IR.Numeral
import BinaryLayout.Source.Location

/-!
# The intermediate representation

What a definition means, independent of how it was written: modules with types, types with
fields, fields with places and conditions, and the expressions in all of them.  The same
representation serves every stage; a part that a stage has not filled in yet is not set.
-/

namespace BinaryLayout.IR

/-- A word of the source text. -/
structure Word where
  text : Option String := none
  location : Option Location := none

structure StringConstant where
  text : Option String := none
  location : Option Location := none

structure Documentation where
  text : Option String := none
  location : Option Location := none

/-- A truth value written in an expression. -/
structure BooleanConstant where
  value : Option Bool := none
  location : Option Location := none

/-- A place with nothing in it. -/
structure Blank where
  location : Option Location := none

/-- A number written in an expression. -/
structure NumericConstant where
  value : Option Numeral := none
  location : Option Location := none

/-- The operators and functions of expressions. -/
inductive Operator where
  | unknown
  | addition
  | subtraction
  | multiplication
  | equality
  | inequality
  | and
  | or
  | less
  | lessOrEqual
  | greater
  | greaterOrEqual
  | choice
  | maximum
  | presence
  | upperBound
  | lowerBound
deriving DecidableEq

/-- The absolute name of an object: a file, and the names that lead to the object in it. -/
structure CanonicalName where
  file : String := ""
  path : List String := []
deriving DecidableEq, Inhabited

/-- The place where an object gets its name. -/
structure NameDefinition where
  name : Option Word := none
  canonicalName : Option CanonicalName := none
  isAnonymous : Option Bool := none
  location : Option Location := none

/-- The use of a name. -/
structure Reference where
  canonicalName : Option CanonicalName := none
  /-- The words that were written. -/
  sourceName : List Word := []
  /-- The name of a type that is defined where it is used. -/
  isLocalName : Option Bool := none
  location : Option Location := none

structure FieldReference where
  path : List Reference := []
  location : Option Location := none

/-- What is known of an integer: its range, and its remainder for some modulus. -/
structure IntegerType where
  modulus : Option Numeral := none
  modularValue : Option Numeral := none
  minimum : Option Numeral := none
  maximum : Option Numeral := none
deriving Inhabited

/-- What is known of a truth value. -/
structure BooleanType where
  value : Option Bool := none

/-- What is known of a value of an enumeration. -/
structure EnumType where
  name : Option Reference := none
  value : Option Numeral := none

/-- The type of an expression, and what is known of its value. -/
inductive ExpressionType where
  | unset
  /-- A value that expressions cannot take apart. -/
  | compound
  | integer (bounds : IntegerType)
  | boolean (known : BooleanType)
  | enumeration (known : EnumType)

/-- What every expression has: its type and its place. -/
structure Annotation where
  type : Option ExpressionType := none
  location : Option Location := none

inductive Expression where
  | unset (note : Annotation)
  | constant (value : NumericConstant) (note : Annotation)
  | constantReference (reference : Reference) (note : Annotation)
  | function (operator : Option Operator) (args : List Expression) (name : Option Word)
      (callLocation : Option Location) (note : Annotation)
  | fieldReference (reference : FieldReference) (note : Annotation)
  | booleanConstant (value : BooleanConstant) (note : Annotation)
  | builtinReference (reference : Reference) (note : Annotation)

/-- The use of an operator or function. -/
structure Call where
  operator : Option Operator := none
  args : List Expression := []
  name : Option Word := none
  location : Option Location := none

namespace Expression

def note : Expression → Annotation
  | .unset n => n
  | .constant _ n => n
  | .constantReference _ n => n
  | .function _ _ _ _ n => n
  | .fieldReference _ n => n
  | .booleanConstant _ n => n
  | .builtinReference _ n => n

def withNote (n : Annotation) : Expression → Expression
  | .unset _ => .unset n
  | .constant c _ => .constant c n
  | .constantReference r _ => .constantReference r n
  | .function op args name l _ => .function op args name l n
  | .fieldReference r _ => .fieldReference r n
  | .booleanConstant c _ => .booleanConstant c n
  | .builtinReference r _ => .builtinReference r n

def type (e : Expression) : Option ExpressionType :=
  e.note.type

def location (e : Expression) : Option Location :=
  e.note.location

def withType (type : Option ExpressionType) (e : Expression) : Expression :=
  e.withNote { e.note with type := type }

def withLocation (location : Option Location) (e : Expression) : Expression :=
  e.withNote { e.note with location := location }

def ofCall (call : Call) (note : Annotation) : Expression :=
  .function call.operator call.args call.name call.location note

def call? : Expression → Option Call
  | .function operator args name location _ => some ⟨operator, args, name, location⟩
  | _ => none

@[simp]
theorem note_withNote (n : Annotation) (e : Expression) : (e.withNote n).note = n := by
  cases e <;> rfl

@[simp]
theorem type_withType (t : Option ExpressionType) (e : Expression) :
    (e.withType t).type = t := by
  simp [type, withType]

end Expression

/-- A type that is not an array, with its arguments. -/
structure AtomicType where
  reference : Option Reference := none
  arguments : List Expression := []
  location : Option Location := none

/-- The number of elements of an array. -/
inductive ArraySize where
  | unset
  | count (elements : Expression)
  /-- As many elements as fit in the field. -/
  | automatic (blank : Blank)

/-- The type of a field or parameter. -/
inductive TypeSpec where
  | unset (sizeInBits : Option Expression) (location : Option Location)
  | atomic (atom : AtomicType) (sizeInBits : Option Expression) (location : Option Location)
  | array (base : Option TypeSpec) (size : ArraySize) (arrayLocation : Option Location)
      (sizeInBits : Option Expression) (location : Option Location)

namespace TypeSpec

def sizeInBits : TypeSpec → Option Expression
  | .unset size _ => size
  | .atomic _ size _ => size
  | .array _ _ _ size _ => size

def location : TypeSpec → Option Location
  | .unset _ l => l
  | .atomic _ _ l => l
  | .array _ _ _ _ l => l

def atom? : TypeSpec → Option AtomicType
  | .atomic atom _ _ => some atom
  | _ => none

def isArray : TypeSpec → Bool
  | .array _ _ _ _ _ => true
  | _ => false

end TypeSpec

structure ArrayType where
  base : Option TypeSpec := none
  size : ArraySize := .unset
  location : Option Location := none

inductive AttributeValue where
  | unset (location : Option Location)
  | expression (value : Expression) (location : Option Location)
  | string (value : StringConstant) (location : Option Location)

namespace AttributeValue

def location : AttributeValue → Option Location
  | .unset l => l
  | .expression _ l => l
  | .string _ l => l

def expression? : AttributeValue → Option Expression
  | .expression e _ => some e
  | _ => none

def string? : AttributeValue → Option StringConstant
  | .string s _ => some s
  | _ => none

end AttributeValue

/-- A property of a module, type, field or value. -/
structure Attribute where
  name : Option Word := none
  value : Option AttributeValue := none
  backEnd : Option Word := none
  /-- Whether the attribute sets the default for what is inside. -/
  isDefault : Option Bool := none
  location : Option Location := none

/-- How a value of a virtual field is turned into one of the field below it. -/
structure WriteTransform where
  body : Option Expression := none
  destination : Option FieldReference := none

/-- What happens when a field is written. -/
inductive WriteMethod where
  | unset
  | physical (value : Bool)
  | readOnly (value : Bool)
  | alias (target : FieldReference)
  | transform (transform : WriteTransform)

/-- Where a field lies in its structure. -/
structure Placement where
  start : Option Expression := none
  size : Option Expression := none
  location : Option Location := none

/-- A field of a structure.  A field without a placement is virtual: its value is computed. -/
structure Field where
  placement : Option Placement := none
  type : Option TypeSpec := none
  readTransform : Option Expression := none
  writeMethod : Option WriteMethod := none
  name : Option NameDefinition := none
  abbreviation : Option Word := none
  attributes : List Attribute := []
  documentation : List Documentation := []
  existenceCondition : Option Expression := none
  location : Option Location := none

def Field.isVirtual (f : Field) : Bool :=
  f.placement.isNone

/-- A sequence of fields. -/
structure Structure where
  fields : List Field := []
  /-- The indexes of the fields, each after those that it depends on. -/
  dependencyOrder : List Int := []
  location : Option Location := none

/-- A type that is known from elsewhere. -/
structure External where
  location : Option Location := none

/-- A name for a number. -/
structure EnumValue where
  name : Option NameDefinition := none
  value : Option Expression := none
  documentation : List Documentation := []
  attributes : List Attribute := []
  location : Option Location := none

/-- Names for numbers. -/
structure Enumeration where
  values : List EnumValue := []
  location : Option Location := none

/-- The use of another module. -/
structure Import where
  fileName : Option StringConstant := none
  localName : Option Word := none
  location : Option Location := none

/-- A value that a type takes when it is used. -/
structure RuntimeParameter where
  name : Option NameDefinition := none
  type : Option ExpressionType := none
  physicalType : Option TypeSpec := none
  location : Option Location := none

/-- The unit in which places are counted. -/
inductive AddressableUnit where
  | none
  | bit
  | byte
deriving DecidableEq

def AddressableUnit.bits : AddressableUnit → Nat
  | .none => 0
  | .bit => 1
  | .byte => 8

/-- What a type definition defines. -/
inductive TypeBody where
  | unset
  | external (e : External)
  | enumeration (e : Enumeration)
  | record (s : Structure)

structure TypeDefinition where
  body : TypeBody := .unset
  name : Option NameDefinition := none
  attributes : List Attribute := []
  documentation : List Documentation := []
  subtypes : List TypeDefinition := []
  unit : Option AddressableUnit := none
  parameters : List RuntimeParameter := []
  location : Option Location := none

/-- What a file defines. -/
structure Module where
  attributes : List Attribute := []
  types : List TypeDefinition := []
  documentation : List Documentation := []
  imports : List Import := []
  sourceText : Option String := none
  location : Option Location := none
  fileName : Option String := none

/-- A module and all that it imports. -/
structure Program where
  modules : List Module := []

end BinaryLayout.IR
