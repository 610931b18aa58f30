import BinaryLayout.Cpp.Enum
import BinaryLayout.Cpp.Field
import BinaryLayout.Cpp.Fragment.Structure

/-!
# The code for structures

A structure gets a class that views its bytes, with methods for its parameters and its fields,
for its size, for comparison, and for reading and writing text.
-/

namespace BinaryLayout.Cpp

open IR

/-- What is generated beyond the views themselves. -/
structure Config where
  /-- Whether to generate what turns values into text and back. -/
  includeEnumTraits : Bool := true

def unitName (unit : Option AddressableUnit) : Checked String :=
  match unit with
  | some .bit => .ok "Bits"
  | some .byte => .ok "Bytes"
  | _ => .error .noEntry

structure ParameterCode where
  type : String
  name : String

def parameterCode (p : Program) (q : RuntimeParameter) : Checked ParameterCode := do
  let type ← valueType p q.type
  match ← nameText q.name with
  | some name => return ⟨type.text, name⟩
  | none => throw .illTyped

structure FieldParts where
  code : FieldCode
  okTest : String
  /-- The name of the field, if it takes part in comparisons. -/
  compared : Option String
  decodeClause : Option String
  writeClause : Option String

def isReadOnly (f : Field) : Bool :=
  match f.writeMethod with
  | some (.readOnly b) => b
  | _ => false

def decodeClause (f : Field) : Checked (Option String) := do
  let name ← Failure.require f.name
  if name.isAnonymous.getD false || isReadOnly f then return none
  return some (Fragment.decodeField (← ownName f.name))

def writeClause (f : Field) : Checked (Option String) := do
  match ← attribute? f.attributes "text_output" with
  | some _ => return none
  | none =>
    let name ← ownName f.name
    return some
      (if isReadOnly f then Fragment.writeReadOnlyField name else Fragment.writeField name)

def fieldParts (p : Program) (parent : String) (unit : AddressableUnit) (f : Field) :
    Checked FieldParts := do
  let code ← fieldCode p parent unit f
  let name ← Failure.require (← nameText f.name)
  let okTest := Fragment.okTest ((← fieldName name) ++ "()")
  let decodeClause ← decodeClause f
  let writeClause ← writeClause f
  let compared := if f.isVirtual then none else some name
  return ⟨code, okTest, compared, decodeClause, writeClause⟩

def fieldAt (s : Structure) (index : Int) : Checked Field :=
  let index := if index < 0 then index + s.fields.length else index
  if index < 0 then .error .outOfRange else Failure.element s.fields index.toNat

def sizeMethod (p : Program) : List Field → Checked String
  | [] => throw .invariant
  | f :: rest => do
    let name ← nameText f.name
    if name == some "$size_in_bits" || name == some "$size_in_bytes" then
      let value ← (renderPart p .inside f.readTransform).inline
      let isConstant ←
        if value.isConstant then do pure (← renderCondition p f).isConstant else pure false
      let units := if name == some "$size_in_bits" then "Bits" else "Bytes"
      return if isConstant then Fragment.constantSize units else Fragment.runtimeSize units
    else sizeMethod p rest

/-- The statement that makes an enumeration inside a structure known in its class. -/
def enumUsing? (p : Program) (t : TypeDefinition) : Checked (Option String) := do
  match t.body with
  | .enumeration _ =>
    let name ← definedName t.name
    let full ← qualifiedName p name
    return some (Fragment.enumUsing (← Failure.lastOf name.path) full)
  | _ => return none

def requiresCheck (p : Program) (t : TypeDefinition) : Checked String := do
  match ← attribute? t.attributes "requires" with
  | none => return ""
  | some value =>
    let check ← (renderPart p .inside value.expression?).inline
    return "    if (!(" ++ check.text ++ ").ValueOr(false))\n      return false;"

def parameterFlag : String :=
  "parameters_initialized_"

def innerCode (name : String) (codes : List TypeCode) : TypeCode where
  declaration := inNamespaces [name] (Text.joinLines (codes.map (·.declaration)))
  definition := inNamespaces [name] (Text.joinLines (codes.map (·.definition)))
  methods := inNamespaces [name] (Text.joinLines (codes.map (·.methods)))

def structureCode (p : Program) (config : Config) (t : TypeDefinition) (s : Structure)
    (inner : List TypeCode) : Checked TypeCode := do
  let name ← shownName t.name
  let inner := innerCode name inner
  let units ← unitName t.unit
  let enumUsings := (← t.subtypes.mapM (enumUsing? p)).filterMap id
  let parameters ← t.parameters.mapM (parameterCode p)
  let hasParameters := !parameters.isEmpty
  let fields ← s.dependencyOrder.mapM fun index => do
    fieldParts p name (t.unit.getD .none) (← fieldAt s index)
  let requiresCheck ← requiresCheck p t
  let compared := parameters.map (·.name) ++ fields.filterMap (·.compared)
  let ownName ← ownName t.name
  let view : Fragment.ViewClass := {
    name := ownName
    sizeMethod := ← sizeMethod p s.fields
    fieldMethodDeclarations :=
      String.join (parameters.map fun q => Fragment.parameterMethods q.name q.type) ++
        String.join (fields.map (·.code.declaration))
    fieldOkChecks := Text.joinLines (fields.map (·.okTest))
    parameterOkChecks := if hasParameters then "if (!" ++ parameterFlag ++ ") return false;" else ""
    requiresCheck := requiresCheck
    equalsBody := Text.joinLines (compared.map fun n => Fragment.equalsTest (n ++ "()"))
    uncheckedEqualsBody :=
      Text.joinLines (compared.map fun n => Fragment.uncheckedEqualsTest (n ++ "()"))
    enumUsings := Text.joinLines enumUsings
    textStreamMethods :=
      if config.includeEnumTraits then
        Fragment.textStream (Text.joinLines (fields.filterMap (·.decodeClause)))
          (Text.joinLines (fields.filterMap (·.writeClause)))
      else ""
    parameterFields := Text.joinLines (parameters.map fun q => q.type ++ " " ++ q.name ++ "_;")
    constructorParameters := String.join (parameters.map fun q => q.type ++ " " ++ q.name ++ ", ")
    forwardedParameters :=
      String.join (parameters.map fun q =>
        "::std::forward</**/" ++ q.type ++ ">(" ++ q.name ++ "),")
    parameterInitializers :=
      Text.joinLines (parameters.map fun q => ", " ++ q.name ++ "_(" ++ q.name ++ ")")
    parameterCopyInitializers :=
      let copied (n : String) : String := ", " ++ n ++ "(emboss_reserved_local_other." ++ n ++ ")"
      Text.joinLines (parameters.map (fun q => copied (q.name ++ "_")) ++
        (if hasParameters then [copied parameterFlag] else []))
    flag := if hasParameters then "bool " ++ parameterFlag ++ " = false;" else ""
    flagInitializer := if hasParameters then ", " ++ parameterFlag ++ "(true)" else ""
    units := units }
  return {
    declaration := inner.declaration ++ Fragment.viewDeclaration name
    definition := Text.joinLines (fields.map (·.code.helpers)) ++ inner.definition ++ view.text
    methods := inner.methods ++ Text.joinLines (fields.map (·.code.definition)) }

mutual

def typeCode (p : Program) (config : Config) : TypeDefinition → Checked TypeCode
  | ⟨body, name, attributes, documentation, subtypes, unit, parameters, location⟩ => do
    let t : TypeDefinition :=
      ⟨body, name, attributes, documentation, subtypes, unit, parameters, location⟩
    match body with
    | .record s =>
      let _ ← nameText name
      structureCode p config t s (← typeCodes p config subtypes)
    | .enumeration e => enumCode config.includeEnumTraits t e
    | .external _ => return {}
    | .unset => throw .invariant

def typeCodes (p : Program) (config : Config) : List TypeDefinition → Checked (List TypeCode)
  | [] => return []
  | t :: rest => do
    let first ← typeCode p config t
    return first :: (← typeCodes p config rest)

end

end BinaryLayout.Cpp
