import BinaryLayout.Cpp.Fragment.Field
import BinaryLayout.Cpp.Fragment.Outline
import BinaryLayout.Cpp.ViewType
import BinaryLayout.Naming

/-!
# The code for fields

A field with a place gets a method that makes a view of it, and a class for its check if it has
one.  A computed field gets a class of its own, unless it only stands for another field.
-/

namespace BinaryLayout.Cpp

open IR

structure FieldCode where
  /-- Classes that have to come before that of the structure. -/
  helpers : String := ""
  declaration : String
  definition : String

def inNamespaces (names : List String) (body : String) : String :=
  names.foldr (fun name body => Fragment.inNamespace name body ++ "\n") body

def customCheck? (p : Program) (f : Field) : Checked (Option String) := do
  match ← attribute? f.attributes "requires" with
  | none => return none
  | some value =>
    let r ← (renderPart p (.validating f) value.expression?).inline
    return some r.text

def visibility (f : Field) : Checked String := do
  let name ← Failure.require f.name
  return if name.isAnonymous.getD false then "private" else "public"

def validatorName (name : String) : String :=
  "EmbossReservedValidatorFor" ++ snakeToCamel name

def validatorFor (p : Program) (parent : String) (f : Field) : Checked (String × String) := do
  match ← customCheck? p f with
  | none => return ("::emboss::support::AllValuesAreOk", "")
  | some check =>
    let name := validatorName (← ownName f.name)
    return (parent ++ "::" ++ name, inNamespaces [parent] (Fragment.validator name check))

def physicalField (p : Program) (parent : String) (unit : AddressableUnit) (f : Field)
    (l : Placement) : Checked FieldCode := do
  let (validator, helpers) ← validatorFor p parent f
  let view ← fieldView p f l "Storage" validator unit
  let name ← ownName f.name
  let ((arguments, own, offset, size), store) ← RenderM.shared do
    let arguments ← renderAll p .inside view.arguments
    let own := ((← get).getD {}).definitions.length
    let offset ← renderPart p .inside l.start
    let size ← renderPart p .inside l.size
    return (arguments, own, offset, size)
  let (alignment, staticOffset) ← alignmentOf l
  let declaration := Fragment.fieldDeclaration (← visibility f) view.type name
  let methods : Fragment.FieldMethods := {
    parent := parent
    name := name
    view := view.type
    offset := offset.text
    size := size.text
    sizeAndOffsetSubexpressions := store.lines "    " own
    condition := (← renderCondition p f).text
    alignment := alignment
    parametersKnown := String.join (arguments.map fun a => a.text ++ ".Known() && ")
    parameterValues := String.join (arguments.map fun a => a.text ++ ".ValueOrDefault(), ")
    parameterSubexpressions := (Store.mk (store.definitions.take own)).lines "  " 0
    staticOffset := staticOffset }
  return ⟨helpers, declaration, methods.definition⟩

def aliasField (p : Program) (parent : String) (f : Field) (target : FieldReference) :
    Checked FieldCode := do
  let target ← renderVariable target
  let visibility ← visibility f
  let name ← shownName f.name
  let condition ← renderCondition p f
  return { declaration := Fragment.aliasDeclaration visibility name target
           definition := Fragment.aliasDefinition parent name condition.text }

def virtualNames (f : Field) : Checked (String × String) := do
  let name ← ownName f.name
  if isBuiltinName name then
    let name ← fieldName (← Failure.require (← nameText f.name))
    return (name, "EmbossReservedDollarVirtual" ++ name ++ "View")
  return (name, "EmbossReservedVirtual" ++ snakeToCamel name ++ "View")

def writeMethods (p : Program) (type : ValueType) (m : WriteMethod) : Checked String := do
  match m with
  | .transform t =>
    let destination ← renderVariable (← Failure.require t.destination)
    let value ← (renderPart p .throughView t.body).inline
    return Fragment.virtualWriteMethods type.text destination value.text
  | _ => return ""

def textWriter : ValueType → String
  | .integer _ => "WriteIntegerViewToTextStream"
  | .boolean => "WriteBooleanViewToTextStream"
  | .enumeration _ => "WriteEnumViewToTextStream"

def computedField (p : Program) (parent : String) (f : Field) (m : WriteMethod) :
    Checked FieldCode := do
  let (value, store) ← (renderPart p .throughView f.readTransform).shared
  let condition ← renderCondition p f
  let type ← valueType p (f.readTransform.bind Expression.type)
  let writeMethods ← writeMethods p type m
  let (name, view) ← virtualNames f
  Failure.ensure type.exists?
  let check ← customCheck? p f
  let code : Fragment.VirtualField := {
    visibility := ← visibility f
    name := name
    view := view
    type := type.text
    parent := parent
    writer := textWriter type
    writeMethods := writeMethods
    readSubexpressions := store.lines "      " 0
    readValue := value.text
    valueIsOk := check.getD "::emboss::support::Maybe<bool>(true)"
    condition := condition.text }
  if value.isConstant && condition.isConstant then
    return { declaration := code.constantDeclaration, definition := code.constantDefinition }
  return { declaration := code.declaration, definition := code.definition }

def fieldCode (p : Program) (parent : String) (unit : AddressableUnit) (f : Field) :
    Checked FieldCode := do
  match f.placement with
  | some l => physicalField p parent unit f l
  | none =>
    match ← Failure.require f.writeMethod with
    | .alias target => aliasField p parent f target
    | m => computedField p parent f m

end BinaryLayout.Cpp
