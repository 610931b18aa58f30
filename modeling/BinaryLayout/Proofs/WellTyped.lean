import BinaryLayout.Bounds.Infer
import BinaryLayout.Proofs.Evaluation
import BinaryLayout.Typing.Basic

/-!
# Well-typed expressions

`WellTyped` says what the types of an expression and its parts have to do with each other and
with what its references lead to.  It is about sorts only: an integer, a truth value, a value of
an enumeration.  What is known of a value beyond its sort does not matter here.

`Pending` says that nothing beyond the sorts is known of an expression but for parts that are
done.
-/

namespace BinaryLayout

open IR Typing

namespace IR

/-- A sort whose values expressions can compute with. -/
def ScalarSort (sort : Option TypeSort) : Prop :=
  sort = some .integer ∨ sort = some .boolean ∨ sort = some .enumeration

/-- The sorts of the arguments and of the result of an operator. -/
def Operator.Accepts (operator : Operator) (arguments : List (Option TypeSort))
    (result : Option TypeSort) : Prop :=
  match operator with
  | .addition | .subtraction | .multiplication =>
    arguments = [some .integer, some .integer] ∧ result = some .integer
  | .equality | .inequality =>
    (∃ sort, ScalarSort sort ∧ arguments = [sort, sort]) ∧ result = some .boolean
  | .less | .lessOrEqual | .greater | .greaterOrEqual =>
    (∃ sort, (sort = some .integer ∨ sort = some .enumeration) ∧ arguments = [sort, sort]) ∧
      result = some .boolean
  | .and | .or => arguments = [some .boolean, some .boolean] ∧ result = some .boolean
  | .choice => ScalarSort result ∧ arguments = [some .boolean, result, result]
  | .maximum => (∀ sort ∈ arguments, sort = some .integer) ∧ result = some .integer
  | .upperBound | .lowerBound => arguments = [some .integer] ∧ result = some .integer
  | .unknown | .presence => False

/-- The type that a field or parameter is declared with. -/
def Object.physicalType? : Object → Option TypeSpec
  | .field f => f.type
  | .parameter q => q.physicalType
  | _ => none

/-- The name of the type that a field or parameter is declared with, unless it is an array. -/
def Object.typeName? (object : Object) : Option (List String) := do
  let atom ← (← object.physicalType?).atom?
  return (← (← atom.reference).canonicalName).path

def Object.isFlag (object : Object) : Bool :=
  object.typeName? == some ["Flag"]

end IR

/-- The types in an expression fit together and fit what its references lead to.  The word for
the value that is being written to a virtual field has the type given. -/
inductive WellTyped (p : Program) (logical : Option ExpressionType) : Expression → Prop
  | number {n : NumericConstant} {note : Annotation}
      (sort : sort? (.constant n note) = some .integer) : WellTyped p logical (.constant n note)
  | truth {b : BooleanConstant} {note : Annotation}
      (sort : sort? (.booleanConstant b note) = some .boolean) :
      WellTyped p logical (.booleanConstant b note)
  | logicalValue {r : Reference} {note : Annotation} (isWord : r.IsWord "$logical_value")
      (given : note.type = logical) (scalar : ScalarSort (sort? (.builtinReference r note))) :
      WellTyped p logical (.builtinReference r note)
  | staticSize {r : Reference} {note : Annotation} (isWord : r.IsWord "$static_size_in_bits")
      (sort : sort? (.builtinReference r note) = some .integer) :
      WellTyped p logical (.builtinReference r note)
  | isStaticallySized {r : Reference} {note : Annotation}
      (isWord : r.IsWord "$is_statically_sized")
      (sort : sort? (.builtinReference r note) = some .boolean) :
      WellTyped p logical (.builtinReference r note)
  | enumValue {r : Reference} {note : Annotation} {name : CanonicalName} {v : EnumValue}
      {e : Expression} (named : r.Names p name (.enumValue v)) (hasValue : v.value = some e)
      (valueSort : sort? e = some .integer)
      (sort : sort? (.constantReference r note) = some .enumeration) :
      WellTyped p logical (.constantReference r note)
  | fixed {r : Reference} {note : Annotation} {name : CanonicalName} {object : Object}
      {e : Expression} (named : r.Names p name object) (isComputed : object.computed? = some e)
      (sort : sort? (.constantReference r note) = sort? e)
      (isTyped : (sort? e).isSome) : WellTyped p logical (.constantReference r note)
  | stored {r : FieldReference} {note : Annotation} {last : Reference} {name : CanonicalName}
      {object : Object} (ends : r.path.getLast? = some last) (named : last.Names p name object)
      (isStored : object.isStored) (isTyped : (sort? (.fieldReference r note)).isSome)
      (flag : object.isFlag = true ↔ sort? (.fieldReference r note) = some .boolean) :
      WellTyped p logical (.fieldReference r note)
  | computed {r : FieldReference} {note : Annotation} {last : Reference} {name : CanonicalName}
      {object : Object} {e : Expression} (ends : r.path.getLast? = some last)
      (named : last.Names p name object) (isComputed : object.computed? = some e)
      (sort : sort? (.fieldReference r note) = sort? e) (isTyped : (sort? e).isSome) :
      WellTyped p logical (.fieldReference r note)
  | operation {operator : Operator} {args : List Expression} {word : Option Word}
      {location : Option Location} {note : Annotation}
      (arguments : ∀ arg ∈ args, WellTyped p logical arg)
      (accepts : operator.Accepts (args.map sort?)
        (sort? (.function (some operator) args word location note))) :
      WellTyped p logical (.function (some operator) args word location note)
  | presence {r : FieldReference} {inner note : Annotation} {word : Option Word}
      {location : Option Location} {last : Reference} {name : CanonicalName} {object : Object}
      {condition : Expression} (argument : WellTyped p logical (.fieldReference r inner))
      (ends : r.path.getLast? = some last) (named : last.Names p name object)
      (conditional : object.condition? = some condition)
      (conditionSort : sort? condition = some .boolean)
      (sort : sort? (.function (some .presence) [.fieldReference r inner] word location note) =
        some .boolean) :
      WellTyped p logical
        (.function (some .presence) [.fieldReference r inner] word location note)

/-- Nothing beyond its sort is known of any part of an expression, but for parts that are done. -/
inductive Pending (done : Expression → Prop) : Expression → Prop
  | done {e : Expression} (isDone : done e) : Pending done e
  | leaf {e : Expression} (isLeaf : e.call? = none)
      (isOpen : ∀ t, e.type = some t → t.isConstant = false) : Pending done e
  | call {operator : Option Operator} {args : List Expression} {word : Option Word}
      {location : Option Location} {note : Annotation}
      (isOpen : ∀ t, note.type = some t → t.isConstant = false)
      (arguments : ∀ arg ∈ args, Pending done arg) :
      Pending done (.function operator args word location note)

end BinaryLayout
