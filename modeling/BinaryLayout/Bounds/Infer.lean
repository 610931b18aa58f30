import BinaryLayout.Bounds.Transfer
import BinaryLayout.IR.Find
import BinaryLayout.IR.Walk
import BinaryLayout.Diagnostic.Basic

/-!
# Computing bounds

Every expression gets bounds: the smallest and the largest value it can have, and a congruence
that all of its values share.  An integer in a field has the range of its type; a reference to a
virtual field takes over what is known of the expression of that field, which is computed first
if need be.
-/

namespace BinaryLayout.Bounds

open IR

abbrev BoundsM := StateT Program (Except Failure)

def constantText : Constant → Numeral
  | .int n => .int n
  | .bool b => .other (Constant.bool b).text

def literalType (own : ExpressionType) (n : NumericConstant) : Checked ExpressionType := do
  let _ ← integerOf own
  return .integer (singleton n.value)

def booleanType (own : ExpressionType) (b : BooleanConstant) : Checked ExpressionType :=
  match own with
  | .boolean _ => return .boolean ⟨b.value⟩
  | _ => .error .unset

def isGiven : Bound → Bool
  | some n => !n.isEmpty
  | none => false

/-- What is known of a word that stands for something only in some places. -/
def builtinType (own : ExpressionType) (r : Reference) : Checked ExpressionType := do
  match ← Failure.element (← Failure.require r.canonicalName).path 0 with
  | "$static_size_in_bits" =>
    let _ ← integerOf own
    return .integer ⟨some (.int 1), some (.int 0), some (.int 0), some .infinity⟩
  | "$is_statically_sized" => return own
  | "$logical_value" =>
    match own with
    | .integer t =>
      Failure.ensure (isGiven t.modulus && isGiven t.modularValue)
      Failure.ensure (isGiven t.minimum && isGiven t.maximum)
      return own
    | .enumeration t =>
      Failure.ensure t.name.isSome
      return own
    | .boolean _ => return own
    | _ => throw .invariant
  | _ => throw .invariant

def rangeOfType (physical : TypeSpec) (size : Option Int) : Checked (Numeral × Numeral) :=
  match size with
  | none => return (.negInfinity, .infinity)
  | some size => do
    let atom ← Failure.require physical.atom?
    let name ← Failure.require (← Failure.require atom.reference).canonicalName
    physicalRange name.path size

def physicalTypeOf : Object → Checked TypeSpec
  | .field f => Failure.require f.type
  | .parameter p => Failure.require p.physicalType
  | _ => .error .unset

def numberOf (e : Option Expression) : Checked (Option Int) :=
  match e with
  | none => return none
  | some e => do return (← e.constantValue?).map Constant.toInt

/-- The size of a field in bits, if it is known: that of its type if it has one of its own, or
that of its place. -/
def sizeOfObject (parent object : Object) (physical : TypeSpec) : Checked (Option Int) :=
  match physical.sizeInBits, object with
  | some size, _ => numberOf (some size)
  | none, .field f => do
    match ← numberOf (← Failure.require f.placement).size with
    | none => return none
    | some size =>
      match parent with
      | .definition t =>
        match t.unit with
        | some unit => return some (size * unit.bits)
        | none => throw .illTyped
      | _ => throw .unset
  | none, _ => return none

def physicalBounds (p : Program) (r : Reference) (object : Object) : Checked ExpressionType := do
  let parent ← p.findParent (← Failure.require r.canonicalName)
  let physical ← physicalTypeOf object
  let size ← sizeOfObject parent.object object physical
  match physical.atom? with
  | none => throw .invariant
  | some atom =>
    let name ← Failure.require (← Failure.require atom.reference).canonicalName
    Failure.ensure name.file.isEmpty
    let (minimum, maximum) ← rangeOfType physical size
    return .integer ⟨some (.int 1), some (.int 0), some minimum, some maximum⟩

/-- Where what is known of a reference comes from. -/
inductive BoundSource where
  | known (t : ExpressionType)
  /-- From another expression of the program. -/
  | expression (address : Address)
  | enumValue (address : Address)

/-- Where what is known of a reference to something fixed comes from. -/
def constantSource (found : Found) : Checked BoundSource :=
  match found.object with
  | .enumValue _ => return .enumValue (found.address ++ [⟨"value", 0⟩])
  | .field f => do
    Failure.ensure f.isVirtual
    return .expression (found.address ++ [⟨"read_transform", 0⟩])
  | _ => .error .invariant

def fieldSource (p : Program) (own : ExpressionType) (r : Reference) (found : Found) :
    Checked BoundSource := do
  let physical : Checked BoundSource :=
    match own with
    | .integer _ => do return .known (← physicalBounds p r found.object)
    | _ => return .known own
  match found.object with
  | .field f =>
    if f.isVirtual then return .expression (found.address ++ [⟨"read_transform", 0⟩])
    else physical
  | _ => physical

def findNamedObject (name : Option CanonicalName) : BoundsM Found := do
  match name with
  | some name => (← get).find name
  | none => throw (if (← get).modules.isEmpty then .invariant else .illTyped)

def presenceSource (args : List Expression) : BoundsM BoundSource := do
  match ← Failure.element args 0 with
  | .fieldReference r _ =>
    let found ← (← get).resolve (← Failure.lastOf r.path)
    match found.object with
    | .field _ => return .expression (found.address ++ [⟨"existence_condition", 0⟩])
    | _ => throw .unset
  | _ => throw .unset

def enumValueType (own : ExpressionType) (value : Expression) : Checked ExpressionType := do
  match ← value.constantValue? with
  | none => throw .invariant
  | some c =>
    match own with
    | .enumeration known => return .enumeration { known with value := some (constantText c) }
    | _ => return .enumeration { value := some (constantText c) }

def settle (e : Expression) (t : ExpressionType) : Checked Expression := do
  if let .integer bounds := t then checkConsistent bounds
  return e.withType (some t)

mutual

/-- An expression with its bounds, and those of its parts.  A single value is left alone.  The
depth bounds the chains of references. -/
def compute (depth : Nat) (e : Expression) : BoundsM Expression := do
  let own ← Failure.entry e.type
  if own.isConstant then return e
  match e with
  | .unset _ => throw .invariant
  | .constant n _ => settle e (← literalType own n)
  | .booleanConstant b _ => settle e (← booleanType own b)
  | .builtinReference r _ => settle e (← builtinType own r)
  | .constantReference r _ =>
    let found ← findNamedObject r.canonicalName
    settle e (← computeSource depth own (← constantSource found))
  | .fieldReference r _ =>
    let target ← Failure.lastOf r.path
    let found ← (← get).resolve target
    settle e (← computeSource depth own (← fieldSource (← get) own target found))
  | .function operator args name callLocation note =>
    let args ← computeAll depth args
    let e := Expression.function operator args name callLocation note
    match operator with
    | none => throw .invariant
    | some .presence => settle e (← computeSource depth own (← presenceSource args))
    | some operator => settle e (← operatorType operator own args)
termination_by (depth, 1, sizeOf e)

def computeAll (depth : Nat) (list : List Expression) : BoundsM (List Expression) := do
  match list with
  | [] => return []
  | e :: rest =>
    let first ← compute depth e
    return first :: (← computeAll depth rest)
termination_by (depth, 1, sizeOf list)

/-- What is known of a reference; an expression that it depends on is computed where it
stands. -/
def computeSource (depth : Nat) (own : ExpressionType) (source : BoundSource) :
    BoundsM ExpressionType := do
  match source with
  | .known t => return t
  | .expression address =>
    let e ← computeAt depth address
    return takeOver own (← Failure.require e.type)
  | .enumValue address => enumValueType own (← computeAt depth address)
termination_by (depth, 0, 1)

def computeAt (depth : Nat) (address : Address) : BoundsM Expression := do
  match depth with
  | 0 => throw .exhausted
  | depth + 1 =>
    let e ← Failure.require (((← get).at? address).bind Node.expression?)
    let computed ← compute depth e
    modify fun p => p.put address (.expression computed)
    return computed
termination_by (depth, 0, 0)

end

def computeParameter (q : RuntimeParameter) : Checked RuntimeParameter := do
  match ← Failure.require q.type with
  | .integer t =>
    let physical ← Failure.require q.physicalType
    let size ← numberOf physical.sizeInBits
    let (minimum, maximum) ← rangeOfType physical size
    return { q with type := some (.integer { t with minimum := minimum, maximum := maximum }) }
  | _ => return q

def chainDepth (p : Program) : Nat :=
  2 * (p.visits [.field]).length + (p.visits [.enumValue]).length + 2

def computeProgram (depth : Nat) : BoundsM Unit := do
  for v in (← get).visits [.expression] [.expression] do
    let _ ← computeAt depth v.address
  for (v, q) in (← get).partsOf Node.parameter? [.runtimeParameter] do
    let computed ← computeParameter q
    modify fun p => p.put v.address (.parameter computed)

def computeConstants (p : Program) : Checked (Program × List MessageGroup) := do
  let ((), p) ← (computeProgram (chainDepth p)).run p
  return (p, [])

end BinaryLayout.Bounds
