import BinaryLayout.Attributes.Complete
import BinaryLayout.Cpp.EnumCase
import BinaryLayout.Cpp.Fragment.Enum
import BinaryLayout.Cpp.Integer
import BinaryLayout.Cpp.Name

/-!
# The code for enumerations

Every value gets a name in each of its styles.  Names are turned into values by their spelling in
the definition, and a value is turned into the first name that was defined for its number.
-/

namespace BinaryLayout.Cpp

open IR

/-- The code for a type: what goes before all classes, the classes, and the methods. -/
structure TypeCode where
  declaration : String := ""
  definition : String := ""
  methods : String := ""

/-- A name of a value in generated code. -/
structure Enumerator where
  name : String
  /-- The name in the definition. -/
  declared : String
  number : Int
  literal : String

def enumeratorName (declared : Option String) (style : String) : Checked String := do
  match NameStyle.ofText? style with
  | some .shouty => return declared.getD "None"
  | some .kCamel =>
    Failure.entry (convertName .shouty .kCamel (← Failure.require declared))
  | some .camel =>
    Failure.entry (convertName .shouty .camel (← Failure.require declared))
  | _ => throw .noEntry

def enumeratorNames (v : EnumValue) : Checked (List String) := do
  let declared ← nameText v.name
  match ← attribute? v.attributes "enum_case" with
  | none => return [declared.getD "None"]
  | some value =>
    match (← Failure.require value.string?).text with
    | none => throw .illTyped
    | some styles => (enumCases styles).mapM (enumeratorName declared)

def enumeratorsOf (v : EnumValue) : Checked (List Enumerator) := do
  let number ← Attributes.knownValue v.value
  let names ← enumeratorNames v
  match number with
  | none => throw .illTyped
  | some c =>
    let literal ← integerText c.toInt c.text
    let declared ← shownName v.name
    return names.map fun name => ⟨name, declared, c.toInt, literal⟩

def enumerators (e : Enumeration) : Checked (List Enumerator) := do
  return (← e.values.mapM enumeratorsOf).flatten

def firstByNumber (seen : List Int) : List Enumerator → List Enumerator
  | [] => []
  | e :: rest =>
    if seen.contains e.number then firstByNumber seen rest
    else e :: firstByNumber (e.number :: seen) rest

def enumStorage (t : TypeDefinition) : Checked IntType := do
  let bits ← integerAttribute? t.attributes "maximum_bits"
  let isSigned ← booleanAttribute? t.attributes "is_signed"
  match bits with
  | none => throw .illTyped
  | some bits => IntType.forEnum bits.toInt (isSigned.getD false)

def enumTraits (enum : String) (names : List Enumerator) : String :=
  let first := firstByNumber [] names
  Fragment.enumTraits enum
    (Text.joinLines (names.map fun e => Fragment.enumFromName enum e.name e.declared))
    (Text.joinLines (first.map fun e => Fragment.nameFromEnum enum e.name e.declared))
    (Text.joinLines (first.map fun e => Fragment.enumIsKnown enum e.name))

def enumCode (withTraits : Bool) (t : TypeDefinition) (e : Enumeration) : Checked TypeCode := do
  let type := (← enumStorage t).text
  let names ← enumerators e
  let enum ← shownName t.name
  let values := String.join (names.map fun e => Fragment.enumValue e.name e.literal)
  return { declaration := Fragment.enumDeclaration enum type
           definition := Fragment.enumDefinition enum type values ++
             (if withTraits then enumTraits enum names else "") }

end BinaryLayout.Cpp
