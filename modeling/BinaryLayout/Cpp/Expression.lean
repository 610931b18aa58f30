import BinaryLayout.Cpp.Integer
import BinaryLayout.Cpp.Name
import BinaryLayout.Cpp.Term

/-!
# Expressions in generated code

An expression that has a single value is written as that value: its parts need not fit any C++
type.  Any other is written as calls of functions that know about values that are missing, each
with the types of its arguments, of its result, and the type in which it is computed.
-/

namespace BinaryLayout.Cpp

open IR

inductive ValueType where
  /-- An integer; no type may be large enough. -/
  | integer (type : Option IntType)
  | boolean
  | enumeration (name : String)
deriving DecidableEq

namespace ValueType

def text : ValueType → String
  | .integer (some t) => t.text
  | .integer none => "None"
  | .boolean => "bool"
  | .enumeration name => name

def exists? : ValueType → Bool
  | .integer none => false
  | _ => true

def require (t : ValueType) : Checked String :=
  if t.exists? then .ok t.text else .error .illTyped

end ValueType

def integerOf (n : Option Numeral) : Checked Int :=
  match n with
  | some n => n.toInt
  | none => .error .illTyped

def enumName (p : Program) (known : EnumType) : Checked String := do
  qualifiedName p (← Failure.require (← Failure.require known.name).canonicalName)

def valueType (p : Program) (t : Option ExpressionType) : Checked ValueType := do
  match ← Failure.require t with
  | .integer bounds =>
    let low ← integerOf bounds.minimum
    return .integer (IntType.forRange low (← integerOf bounds.maximum))
  | .boolean _ => return .boolean
  | .enumeration known => return .enumeration (← enumName p known)
  | .compound => throw .invariant
  | .unset => throw .illTyped

def functionName? : Operator → Option String
  | .addition => some "Sum"
  | .subtraction => some "Difference"
  | .multiplication => some "Product"
  | .equality => some "Equal"
  | .inequality => some "NotEqual"
  | .and => some "And"
  | .or => some "Or"
  | .less => some "LessThan"
  | .lessOrEqual => some "LessThanOrEqual"
  | .greater => some "GreaterThan"
  | .greaterOrEqual => some "GreaterThanOrEqual"
  | .choice => some "Choice"
  | .maximum => some "Maximum"
  | .unknown | .presence | .upperBound | .lowerBound => none

structure OperationTypes where
  /-- The type in which the operation is computed. -/
  intermediate : ValueType
  result : ValueType
  arguments : List ValueType

/-- What the result and the arguments of an operation range over. -/
structure OperationRange where
  /-- The bounds of the integers. -/
  integers : List (Int × Int) := []
  enumerations : List String := []
  hasBoolean : Bool := false

def OperationRange.add (p : Program) (range : OperationRange) (t : Option ExpressionType) :
    Checked OperationRange := do
  match ← Failure.require t with
  | .integer bounds =>
    let low ← integerOf bounds.minimum
    let high ← integerOf bounds.maximum
    return { range with integers := range.integers ++ [(low, high)] }
  | .enumeration known =>
    let name ← enumName p known
    return { range with enumerations := range.enumerations.insert name }
  | .boolean _ => return { range with hasBoolean := true }
  | .compound | .unset => return range

/-- The type in which an operation over a range is computed: one that holds all integers, or the
only enumeration, or the type of truth values. -/
def OperationRange.intermediate (range : OperationRange) : Checked ValueType :=
  match range.integers, range.enumerations with
  | (low, high) :: rest, [] =>
    return .integer (IntType.forRange ((rest.map (·.1)).foldl min low)
      ((rest.map (·.2)).foldl max high))
  | [], [name] => return .enumeration name
  | [], [] => do
    Failure.ensure range.hasBoolean
    return .boolean
  | _, _ => throw .invariant

def operationTypes (p : Program) (result : Option ExpressionType) (args : List Expression) :
    Checked OperationTypes := do
  let range ← (result :: args.map Expression.type).foldlM (OperationRange.add p) {}
  let intermediate ← range.intermediate
  let arguments ← args.mapM fun e => valueType p e.type
  return ⟨intermediate, ← valueType p result, arguments⟩

def callHead (operator : Option Operator) (types : OperationTypes) : Checked String := do
  let arguments ← types.arguments.mapM ValueType.require
  let name ← Failure.entry (operator.bind functionName?)
  return "::emboss::support::" ++ name ++ "</**/" ++
    String.intercalate ", " ([types.intermediate.text, types.result.text,
      String.intercalate ", " arguments]) ++ ">"

def renderVariable (r : FieldReference) (mark : String := "") : Checked String := do
  let names ← r.path.mapM fun r => do
    let name ← Failure.require r.canonicalName
    Failure.lastOf (name.file :: name.path)
  let calls ← names.mapM fun name => do return (← fieldName name) ++ "()"
  let last ← Failure.lastOf calls
  return String.intercalate "." (calls.dropLast ++ [mark ++ last])

/-- From where an expression reads fields. -/
inductive FieldReader where
  /-- From a method of the structure. -/
  | inside
  /-- From the view of a computed field, which holds a view of the structure. -/
  | throughView
  /-- From the check of a field, which knows no other field. -/
  | validating (f : Field)

namespace FieldReader

def access : FieldReader → String
  | .throughView => "view_."
  | _ => ""

def target (e : Expression) : Checked FieldReference :=
  match e with
  | .fieldReference r _ => .ok r
  | _ => .error .unset

def existence (reader : FieldReader) (e : Expression) : Checked Term := do
  match reader with
  | .validating _ => throw .invariant
  | _ => return [.text (reader.access ++ (← renderVariable (← target e) "has_"))]

def read (p : Program) (reader : FieldReader) (r : FieldReference)
    (type : Option ExpressionType) : RenderM Term := do
  match reader with
  | .validating f =>
    match r.path with
    | [step] =>
      Failure.ensure (step.canonicalName == (← Failure.require f.name).canonicalName)
      let type ← valueType p type
      return [.text (maybeType type.text ++ "(emboss_reserved_local_value)")]
    | _ => throw .invariant
  | _ =>
    let field ← share [.text (reader.access ++ (← renderVariable r))]
    let type := (← valueType p type).text
    return [.text "("] ++ field ++
      [.text (".Ok()    ? " ++ maybeType type ++ "(static_cast</**/" ++ type ++ ">(")] ++ field ++
      [.text (".UncheckedRead()))    : " ++ maybeType type ++ "())")]

end FieldReader

/-- An expression of generated code, and whether it is constant. -/
structure Rendered where
  term : Term
  isConstant : Bool

def Rendered.text (r : Rendered) : String :=
  r.term.text

def soleValue? (p : Program) (t : Option ExpressionType) : Checked (Option String) := do
  match ← Failure.require t with
  | .integer bounds =>
    if bounds.modulus == some .infinity then
      return some (← renderMaybeInteger (← integerOf bounds.modularValue))
    return none
  | .boolean known =>
    return known.value.map fun b => maybeType "bool" ++ (if b then "(true)" else "(false)")
  | .enumeration known =>
    match known.value with
    | none => return none
    | some value =>
      let name ← enumName p known
      return some (maybeType name ++ "(static_cast</**/" ++ name ++ ">(" ++ value.text ++ "))")
  | .compound | .unset => throw .invariant

/-- A value that is not constant. -/
def varying (m : RenderM Term) : RenderM Rendered := do
  return ⟨← share (← m), false⟩

def knownOr (p : Program) (t : Option ExpressionType) (m : RenderM Rendered) :
    RenderM Rendered := do
  match ← soleValue? p t with
  | some text => return ⟨[.text text], true⟩
  | none => m

def writtenValue : Term :=
  [.text (maybeType "decltype(emboss_reserved_local_value)" ++ "(emboss_reserved_local_value)")]

def commaSeparated : List Term → Term
  | [] => []
  | [t] => t
  | t :: rest => t ++ [.text ", "] ++ commaSeparated rest

mutual

def render (p : Program) (reader : FieldReader) : Expression → RenderM Rendered
  | .function operator args _ _ note =>
    knownOr p note.type do
      if operator == some .upperBound || operator == some .lowerBound then throw .invariant
      if operator == some .presence then
        varying do reader.existence (← Failure.element args 0)
      else
        varying do
          let rendered ← renderAll p reader args
          let head ← callHead operator (← operationTypes p note.type args)
          return [.text (head ++ "(")] ++ commaSeparated (rendered.map Rendered.term) ++
            [.text ")"]
  | .fieldReference r note => knownOr p note.type (varying (reader.read p r note.type))
  | .builtinReference r note =>
    knownOr p note.type do
      let name ← Failure.lastOf (← Failure.require r.canonicalName).path
      if name == "$logical_value" then return ⟨writtenValue, false⟩
      throw .invariant
  | .unset note => knownOr p note.type (throw .invariant)
  | .constant _ note => knownOr p note.type (throw .invariant)
  | .constantReference _ note => knownOr p note.type (throw .invariant)
  | .booleanConstant _ note => knownOr p note.type (throw .invariant)

def renderAll (p : Program) (reader : FieldReader) : List Expression → RenderM (List Rendered)
  | [] => return []
  | e :: rest => do
    let first ← render p reader e
    return first :: (← renderAll p reader rest)

end

def renderPart (p : Program) (reader : FieldReader) (e : Option Expression) : RenderM Rendered := do
  render p reader (← Failure.require e)

def renderCondition (p : Program) (f : Field) : Checked Rendered :=
  (renderPart p .inside f.existenceCondition).inline

end BinaryLayout.Cpp
