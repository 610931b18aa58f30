import BinaryLayout.Proofs.Bounds.Transfer
import BinaryLayout.Proofs.WellTyped

/-!
# Completed expressions

`Completes p e e'` says which types an expression gets, part by part, in a program in which the
expressions that it refers to have theirs already.  It does not say in which order this comes
about: that is the business of the functions that compute bounds.

Main statement: completing keeps the sorts of types.  The laws of the rules for single expressions
come before it: a rule gives the same type once more, and no constant value is lost.
-/

namespace BinaryLayout.Bounds

open IR Typing Checked List Failure

variable {e e' other : Expression} {t own : ExpressionType} {p : Program} {r : Reference}
  {object : Object} {args args' : List Expression} {operator : Operator} {note : Annotation}
  {c : Option Constant} {logical : Option ExpressionType}

/-- The type of an expression that depends on nothing else. -/
def plainType (own : ExpressionType) : Expression → Checked ExpressionType
  | .constant n _ => literalType own n
  | .booleanConstant b _ => booleanType own b
  | .builtinReference r _ => builtinType own r
  | _ => .error .unset

/-- The type of a reference to a physical field or a parameter. -/
def storedType (p : Program) (own : ExpressionType) (r : Reference) (object : Object) :
    Checked ExpressionType :=
  match own with
  | .integer _ => physicalBounds p r object
  | _ => .ok own

/-- A reference stands for the expression of a virtual field. -/
inductive Refers (p : Program) : Expression → Expression → Prop
  | field {r : FieldReference} {note : Annotation} {last : Reference} {name : CanonicalName}
      {object : Object} {other : Expression} (ends : r.path.getLast? = some last)
      (named : last.Names p name object) (isComputed : object.computed? = some other) :
      Refers p (.fieldReference r note) other
  | fixed {r : Reference} {note : Annotation} {name : CanonicalName} {object : Object}
      {other : Expression} (named : r.Names p name object)
      (isComputed : object.computed? = some other) : Refers p (.constantReference r note) other

/-- An expression gets its types, and those of its parts. -/
inductive Completes (p : Program) : Expression → Expression → Prop
  /-- A part of which the value is known stays as it is. -/
  | kept {before e : Expression} {t : ExpressionType} (inner : Completes p before e)
      (hasType : e.type = some t) (isConstant : t.isConstant = true) : Completes p e e
  | plain {e e' : Expression} {own t : ExpressionType} (hasType : e.type = some own)
      (isOpen : own.isConstant = false) (rule : plainType own e = .ok t)
      (settled : settle e t = .ok e') : Completes p e e'
  | stored {r : FieldReference} {note : Annotation} {last : Reference} {name : CanonicalName}
      {object : Object} {e' : Expression} {own t : ExpressionType}
      (hasType : note.type = some own) (isOpen : own.isConstant = false)
      (ends : r.path.getLast? = some last) (named : last.Names p name object)
      (isStored : object.isStored) (rule : storedType p own last object = .ok t)
      (settled : settle (.fieldReference r note) t = .ok e') :
      Completes p (.fieldReference r note) e'
  | refers {e e' before other : Expression} {own t : ExpressionType} (hasType : e.type = some own)
      (isOpen : own.isConstant = false) (refers : Refers p e other)
      (inner : Completes p before other) (otherType : other.type = some t)
      (settled : settle e (takeOver own t) = .ok e') : Completes p e e'
  | enumValue {r : Reference} {note : Annotation} {name : CanonicalName} {v : EnumValue}
      {e' before other : Expression} {own t : ExpressionType} (hasType : note.type = some own)
      (isOpen : own.isConstant = false) (named : r.Names p name (.enumValue v))
      (hasValue : v.value = some other) (inner : Completes p before other)
      (rule : enumValueType own other = .ok t)
      (settled : settle (.constantReference r note) t = .ok e') :
      Completes p (.constantReference r note) e'
  | operation {operator : Operator} {args args' : List Expression} {word : Option Word}
      {location : Option Location} {note : Annotation} {e' : Expression} {own t : ExpressionType}
      (hasType : note.type = some own) (isOpen : own.isConstant = false)
      (sameLength : args.length = args'.length)
      (arguments : ∀ pair ∈ args.zip args', Completes p pair.1 pair.2)
      (rule : operatorType operator own args' = .ok t)
      (settled : settle (.function (some operator) args' word location note) t = .ok e') :
      Completes p (.function (some operator) args word location note) e'
  | presence {args args' : List Expression} {r : FieldReference} {inner note : Annotation}
      {word : Option Word} {location : Option Location} {last : Reference} {name : CanonicalName}
      {object : Object} {e' before other : Expression} {own t : ExpressionType}
      (hasType : note.type = some own) (isOpen : own.isConstant = false)
      (sameLength : args.length = args'.length)
      (arguments : ∀ pair ∈ args.zip args', Completes p pair.1 pair.2)
      (isField : args'[0]? = some (.fieldReference r inner)) (ends : r.path.getLast? = some last)
      (named : last.Names p name object) (conditional : object.condition? = some other)
      (condition : Completes p before other) (otherType : other.type = some t)
      (settled : settle (.function (some .presence) args' word location note) (takeOver own t) =
        .ok e') :
      Completes p (.function (some .presence) args word location note) e'

/-- An expression that has its types. -/
def Complete (p : Program) (e : Expression) : Prop :=
  ∃ before, Completes p before e

/-! ## Small laws -/

theorem settle_eq_ok :
    settle e t = .ok e' ↔
      (∀ bounds, t = .integer bounds → checkConsistent bounds = .ok ()) ∧
        e' = e.withType (some t) := by
  unfold settle
  cases t with
  | integer =>
    simp only [bind_eq_ok, pure_eq_ok, ExpressionType.integer.injEq, forall_eq']
    constructor
    · rintro ⟨_, consistent, same⟩
      exact ⟨consistent, same.symm⟩
    · rintro ⟨consistent, same⟩
      exact ⟨(), consistent, same.symm⟩
  | _ =>
    simp only [pure_eq_ok, reduceCtorEq, false_implies, implies_true, true_and]
    exact eq_comm

theorem type_of_settle (settled : settle e t = .ok e') : e'.type = some t := by
  rw [(settle_eq_ok.1 settled).2, Expression.type_withType]

theorem names_unique {name other : CanonicalName} {second : Object} (first : r.Names p name object)
    (again : r.Names p other second) : name = other ∧ object = second := by
  rcases first with ⟨nameIs, _, found⟩
  rcases again with ⟨otherIs, _, foundAgain⟩
  cases nameIs.symm.trans otherIs
  cases found.symm.trans foundAgain
  exact ⟨rfl, rfl⟩

theorem computed?_of_isStored (isStored : object.isStored) : object.computed? = none := by
  cases object with
  | field f => simp_all [Object.isStored, Object.computed?]
  | _ => rfl

theorem Refers.unique {another : Expression} (first : Refers p e other)
    (second : Refers p e another) : other = another := by
  cases first with
  | field ends named isComputed =>
    rcases second with ⟨ends', named', isComputed'⟩
    cases ends.symm.trans ends'
    rcases names_unique named named' with ⟨_, rfl⟩
    exact Option.some.inj (isComputed.symm.trans isComputed')
  | fixed named isComputed =>
    rcases second with _ | ⟨named', isComputed'⟩
    rcases names_unique named named' with ⟨_, rfl⟩
    exact Option.some.inj (isComputed.symm.trans isComputed')

theorem not_refers_of_isStored (note : Annotation) {r : FieldReference} {last : Reference}
    {name : CanonicalName} (ends : r.path.getLast? = some last) (named : last.Names p name object)
    (isStored : object.isStored) : ¬Refers p (.fieldReference r note) other := by
  rintro ⟨ends', named', isComputed⟩
  cases ends.symm.trans ends'
  rcases names_unique named named' with ⟨_, rfl⟩
  cases (computed?_of_isStored isStored).symm.trans isComputed

theorem not_open_of_constant {part : Option ExpressionType} (hasType : part = some own)
    (isOpen : own.isConstant = false) (same : part = some t) (isConstant : t.isConstant = true) :
    False := by
  cases hasType.symm.trans same
  rw [isOpen] at isConstant
  cases isConstant

theorem forall₂_of_zip {R : Expression → Expression → Prop}
    (sameLength : args.length = args'.length) (each : ∀ pair ∈ args.zip args', R pair.1 pair.2) :
    Forall₂ R args args' :=
  forall₂_iff_zip.2 ⟨sameLength, each _⟩

/-! ## A rule gives the same type once more -/

/-- Both types are those of integers. -/
def AreIntegers (own t : ExpressionType) : Prop :=
  ∃ before after, own = .integer before ∧ t = .integer after

theorem additive_areIntegers {isSum : Bool} (run : additive isSum own args = .ok t) :
    AreIntegers own t := by
  rw [additive, bind_eq_ok] at run
  rcases run with ⟨_, _, run⟩
  simp only [bind_eq_ok, pure_eq_ok, integerOf_eq_ok] at run
  rcases run with ⟨_, _, _, _, _, _, _, _, before, ownIs, _, _, _, _, _, _, typeIs⟩
  exact ⟨before, _, ownIs, typeIs.symm⟩

theorem multiplicative_areIntegers (run : multiplicative own args = .ok t) : AreIntegers own t := by
  simp only [multiplicative, bind_eq_ok, pure_eq_ok, integerOf_eq_ok] at run
  rcases run with ⟨_, _, _, _, _, _, _, _, _, _, _, _, _, _, _, _, _, _, _, _, _, _, before, ownIs,
    _, _, _, _, typeIs⟩
  exact ⟨before, _, ownIs, typeIs.symm⟩

theorem largest_areIntegers (run : largest own args = .ok t) : AreIntegers own t := by
  cases own with
  | integer before =>
    rcases largest_eq_ok run with ⟨_, _, _, _, _, _, _, ⟨_, rfl⟩ | ⟨_, _, rfl⟩⟩
    · exact ⟨before, _, rfl, rfl⟩
    · exact ⟨before, _, rfl, rfl⟩
  | _ =>
    unfold largest at run
    simp only [bind_eq_ok] at run
    rcases run with ⟨_, impossible, _⟩
    exact (throw_ne_ok impossible).elim

theorem boundFunction_areIntegers {isUpper : Bool} (run : boundFunction isUpper own args = .ok t) :
    AreIntegers own t := by
  simp only [boundFunction, bind_eq_ok, pure_eq_ok, integerOf_eq_ok] at run
  rcases run with ⟨_, _, _, _, before, ownIs, typeIs⟩
  exact ⟨before, _, ownIs, typeIs.symm⟩

theorem takeOver_takeOver (own t : ExpressionType) :
    takeOver (takeOver own t) t = takeOver own t := by
  cases t <;> rfl

theorem choice_again (run : choice own args = .ok t) : choice t args = .ok t := by
  unfold choice at run
  split at run
  · rename_i condition ifTrue ifFalse
    rcases choice_eq_ok run with ⟨_, left, _, conditionIs, leftIs, rightIs, _⟩
    simp only [choice, conditionIs, leftIs, rightIs, require_some, bind, Except.bind]
      at run ⊢
    split at run
    · rename_i value
      cases run
      exact congrArg _ (takeOver_takeOver own _)
    · cases left with
      | integer l => exact run
      | boolean | enumeration => rfl
      | unset | compound => cases run
  · exact (throw_ne_ok run).elim

theorem comparison_again (run : comparison operator own args = .ok t)
    (isOpen : t.isConstant = false) : comparison operator t args = .ok t := by
  rcases comparison_eq_ok run with rfl | ⟨_, _, _, _, _, _, _, _, _, _, rfl⟩
  · exact run
  · cases isOpen

/-- Finding what is known of an operator once more finds nothing new. -/
theorem operatorType_again (run : operatorType operator own args = .ok t)
    (isOpen : t.isConstant = false) : operatorType operator t args = .ok t := by
  cases operator with
  | addition | subtraction =>
    rcases additive_areIntegers run with ⟨_, _, rfl, rfl⟩
    exact run
  | multiplication =>
    rcases multiplicative_areIntegers run with ⟨_, _, rfl, rfl⟩
    exact run
  | maximum =>
    rcases largest_areIntegers run with ⟨_, _, rfl, rfl⟩
    exact run
  | upperBound | lowerBound =>
    rcases boundFunction_areIntegers run with ⟨_, _, rfl, rfl⟩
    exact run
  | choice => exact choice_again run
  | unknown | presence => cases run
  | _ => exact comparison_again run isOpen

theorem builtinType_eq_ok (run : builtinType own r = .ok t) :
    (r.IsWord "$static_size_in_bits" ∧ sortOf own = some .integer ∧
        t = .integer ⟨some (.int 1), some (.int 0), some (.int 0), some .infinity⟩) ∨
      ((r.IsWord "$is_statically_sized" ∨ r.IsWord "$logical_value") ∧ t = own) := by
  simp only [builtinType, bind_eq_ok, element_eq_ok, require_eq_ok] at run
  rcases run with ⟨name, nameIs, _, wordIs, run⟩
  split at run
  · simp only [bind_eq_ok, integerOf_eq_ok, pure_eq_ok] at run
    rcases run with ⟨_, rfl, rfl⟩
    exact .inl ⟨⟨name, nameIs, wordIs⟩, rfl, rfl⟩
  · exact .inr ⟨.inl ⟨name, nameIs, wordIs⟩, (pure_eq_ok.1 run).symm⟩
  · refine .inr ⟨.inr ⟨name, nameIs, wordIs⟩, ?_⟩
    cases own with
    | integer =>
      simp only [bind_eq_ok, pure_eq_ok] at run
      rcases run with ⟨_, _, _, _, rfl⟩
      rfl
    | enumeration =>
      simp only [bind_eq_ok, pure_eq_ok] at run
      rcases run with ⟨_, _, rfl⟩
      rfl
    | boolean => exact (pure_eq_ok.1 run).symm
    | unset | compound => exact (throw_ne_ok run).elim
  · exact (throw_ne_ok run).elim

theorem builtinType_again (run : builtinType own r = .ok t) : builtinType t r = .ok t := by
  rcases builtinType_eq_ok run with ⟨⟨_, nameIs, wordIs⟩, _, rfl⟩ | ⟨_, rfl⟩
  · simp [builtinType, nameIs, Failure.element, wordIs, bind, Except.bind, integerOf, pure,
      Except.pure]
  · exact run

theorem plainType_again (run : plainType own e = .ok t) (isOpen : t.isConstant = false) :
    plainType t e = .ok t := by
  cases e with
  | constant =>
    simp only [plainType, literalType, bind_eq_ok, pure_eq_ok] at run
    rcases run with ⟨_, _, rfl⟩
    cases isOpen
  | booleanConstant =>
    simp only [plainType, booleanType] at run
    split at run
    · cases run
      rfl
    · cases run
  | builtinReference => exact builtinType_again run
  | _ => cases run

theorem plainType_withType (own : ExpressionType) (t : Option ExpressionType) (e : Expression) :
    plainType own (e.withType t) = plainType own e := by
  cases e <;> rfl

/-- The name of a type that is not an array. -/
def Denotes (physical : TypeSpec) (typeName : CanonicalName) : Prop :=
  ∃ atom reference, physical.atom? = some atom ∧ atom.reference = some reference ∧
    reference.canonicalName = some typeName

/-- What the bounds of a physical field or parameter are made of: its type, and its size. -/
structure PhysicalSource (p : Program) (r : Reference) (object : Object) where
  name : CanonicalName
  parent : Found
  physical : TypeSpec
  size : Option Int
  typeName : CanonicalName
  range : Numeral × Numeral
  nameIs : r.canonicalName = some name
  parentIs : p.findParent name = .ok parent
  physicalIs : physicalTypeOf object = .ok physical
  sizeIs : sizeOfObject parent.object object physical = .ok size
  typeNameIs : Denotes physical typeName
  isBuiltIn : typeName.file.isEmpty = true
  rangeIs : rangeOfType physical size = .ok range

def PhysicalSource.type {p : Program} {r : Reference} {object : Object}
    (source : PhysicalSource p r object) : ExpressionType :=
  .integer ⟨some (.int 1), some (.int 0), some source.range.1, some source.range.2⟩

theorem physicalBounds_eq_ok :
    physicalBounds p r object = .ok t ↔ ∃ source : PhysicalSource p r object, t = source.type := by
  rw [physicalBounds]
  constructor
  · intro run
    simp only [bind_eq_ok, require_eq_ok] at run
    rcases run with ⟨name, nameIs, parent, parentIs, physical, physicalIs, run⟩
    cases isAtom : physical.atom? with
    | none =>
      simp only [isAtom] at run
      rcases run with ⟨_, _, impossible⟩
      exact (throw_ne_ok impossible).elim
    | some atom =>
      simp only [isAtom, bind_eq_ok, ensure_eq_ok, pure_eq_ok, require_eq_ok] at run
      rcases run with ⟨size, sizeIs, reference, isReference, typeName, typeNameIs, _, builtIn,
        range, rangeIs, same⟩
      exact ⟨⟨name, parent, physical, size, typeName, range, nameIs, parentIs, physicalIs,
        sizeIs, ⟨atom, reference, isAtom, isReference, typeNameIs⟩, builtIn, rangeIs⟩,
        same.symm⟩
  · rintro ⟨source, rfl⟩
    rcases source.typeNameIs with ⟨atom, reference, isAtom, isReference, typeNameIs⟩
    simp only [bind_eq_ok, require_eq_ok]
    refine ⟨_, source.nameIs, _, source.parentIs, _, source.physicalIs, ?_⟩
    simp only [isAtom, bind_eq_ok, ensure_eq_ok, pure_eq_ok, require_eq_ok]
    exact ⟨_, source.sizeIs, _, isReference, _, typeNameIs, (), source.isBuiltIn, _,
      source.rangeIs, rfl⟩

theorem storedType_again (run : storedType p own r object = .ok t) :
    storedType p t r object = .ok t := by
  cases own with
  | integer =>
    rcases physicalBounds_eq_ok.1 run with ⟨_, rfl⟩
    exact run
  | _ =>
    cases run
    rfl

theorem enumValueType_eq_ok {value : Expression} (run : enumValueType own value = .ok t) :
    ∃ c name, value.constantValue? = .ok (some c) ∧
      t = .enumeration ⟨name, some (constantText c)⟩ := by
  rw [enumValueType, bind_eq_ok] at run
  rcases run with ⟨_ | c, constant, run⟩
  · exact (throw_ne_ok run).elim
  · cases own with
    | enumeration known => exact ⟨c, known.name, constant, (pure_eq_ok.1 run).symm⟩
    | _ => exact ⟨c, none, constant, (pure_eq_ok.1 run).symm⟩

theorem Refers.withType (refers : Refers p e other) (t : Option ExpressionType) :
    Refers p (e.withType t) other := by
  cases refers with
  | field ends named isComputed => exact .field ends named isComputed
  | fixed named isComputed => exact .fixed named isComputed

theorem withType_withType (e : Expression) (first second : Option ExpressionType) :
    (e.withType first).withType second = e.withType second := by
  cases e <;> rfl

theorem settle_again (settled : settle e t = .ok e') : settle e' t = .ok e' := by
  rcases settle_eq_ok.1 settled with ⟨consistent, rfl⟩
  exact settle_eq_ok.2 ⟨consistent, (withType_withType ..).symm⟩

/-! ## Constant values stay -/

theorem soleValue_of_open {c : Constant} (isOpen : own.isConstant = false) :
    ExpressionType.soleValue (some own) ≠ .ok c := by
  cases own with
  | integer =>
    simp only [ExpressionType.isConstant] at isOpen
    simp [ExpressionType.soleValue, isOpen, bind, Except.bind]
  | boolean | enumeration =>
    simp only [ExpressionType.isConstant, Option.isSome_eq_false_iff, Option.isNone_iff_eq_none]
      at isOpen
    simp [ExpressionType.soleValue, isOpen]
  | _ => simp [ExpressionType.soleValue]

theorem constantReference_of_open (hasType : note.type = some own) (isOpen : own.isConstant = false)
    : (Expression.constantReference r note).constantValue? ≠ .ok c := by
  simp only [Expression.constantValue?, Expression.constant?, ne_eq, bind_eq_ok, hasType]
  rintro ⟨v, sole, _⟩
  exact soleValue_of_open isOpen sole

theorem constantsOf_eq_ok {bindings : Bindings} {values : List (Option Constant)} :
    Expression.constantsOf bindings args = .ok values ↔
      List.Forall₂ (fun arg v => arg.constant? bindings = .ok v) args values := by
  induction args generalizing values with
  | nil =>
    rw [Expression.constantsOf, pure_eq_ok]
    exact ⟨fun same => same ▸ .nil, fun pairs => by cases pairs; rfl⟩
  | cons _ _ ih =>
    simp only [Expression.constantsOf, bind_eq_ok, pure_eq_ok]
    constructor
    · rintro ⟨_, headRun, _, tailRun, rfl⟩
      exact .cons headRun (ih.1 tailRun)
    · rintro (_ | ⟨headRun, tailRuns⟩)
      exact ⟨_, headRun, _, ih.2 tailRuns, rfl⟩

theorem constantValue_of_arguments {operator : Option Operator} {word word' : Option Word}
    {location location' : Option Location} {note' : Annotation}
    (stays : Forall₂ (fun e e' => ∀ c, e.constantValue? = .ok c → e'.constantValue? = .ok c)
      args args')
    (run : (Expression.function operator args word location note).constantValue? = .ok c) :
    (Expression.function operator args' word' location' note').constantValue? = .ok c := by
  simp only [Expression.constantValue?, Expression.constant?, bind_eq_ok,
    constantsOf_eq_ok] at run ⊢
  rcases run with ⟨values, pairs, run⟩
  refine ⟨values, ?_, run⟩
  clear run
  induction stays generalizing values with
  | nil =>
    cases pairs
    exact .nil
  | cons head _ ih =>
    rcases pairs with _ | ⟨own, others⟩
    exact .cons (head _ own) (ih _ others)

/-! ## Sorts stay -/

theorem sortOf_takeOver (same : sortOf t = sortOf own) : sortOf (takeOver own t) = sortOf own := by
  cases t with
  | unset => rfl
  | _ => exact same

theorem sortOf_operatorType (run : operatorType operator own args = .ok t)
    (accepts : operator.Accepts (args.map sort?) (sortOf own)) : sortOf t = sortOf own := by
  have integers : AreIntegers own t → sortOf t = sortOf own := by
    rintro ⟨_, _, rfl, rfl⟩
    rfl
  have compared (run : comparison operator own args = .ok t) : sortOf t = sortOf own := by
    rcases comparison_eq_ok run with rfl | ⟨_, _, _, _, _, _, _, _, _, isBoolean, rfl⟩
    · rfl
    · exact isBoolean.symm
  cases operator with
  | addition | subtraction => exact integers (additive_areIntegers run)
  | multiplication => exact integers (multiplicative_areIntegers run)
  | maximum => exact integers (largest_areIntegers run)
  | upperBound | lowerBound => exact integers (boundFunction_areIntegers run)
  | choice =>
    rcases accepts with ⟨_, sorts⟩
    rcases args with _ | ⟨_, _ | ⟨_, _ | ⟨_, _ | _⟩⟩⟩ <;>
      simp only [map_cons, map_nil, List.cons.injEq, reduceCtorEq, and_false, and_true] at sorts
    rcases sorts with ⟨_, leftSort, rightSort⟩
    rcases choice_eq_ok run with ⟨_, _, _, _, leftIs, rightIs, form⟩
    rw [sort?, leftIs] at leftSort
    rw [sort?, rightIs] at rightSort
    rcases form with ⟨value, _, rfl⟩ | ⟨l, rfl, _, _, _, _, _, _, rfl⟩ | ⟨_, rfl⟩
    · refine sortOf_takeOver ?_
      cases value with
      | true => exact leftSort
      | false => exact rightSort
    · exact leftSort
    · rfl
  | unknown | presence => cases run
  | _ => exact compared run

theorem sort?_of_settle (settled : settle e t = .ok e') : sort? e' = sortOf t := by
  rw [sort?, type_of_settle settled]
  rfl

theorem sort?_of_type (hasType : e.type = some t) : sort? e = sortOf t := by
  rw [sort?, hasType]
  rfl

theorem sortOf_plainType (wellTyped : WellTyped p logical e) (hasType : e.type = some own)
    (rule : plainType own e = .ok t) : sortOf t = sortOf own := by
  cases wellTyped with
  | number sort =>
    rw [sort?_of_type hasType] at sort
    simp only [plainType, literalType, bind_eq_ok, pure_eq_ok] at rule
    rcases rule with ⟨_, _, rfl⟩
    exact sort.symm
  | truth sort =>
    rw [sort?_of_type hasType] at sort
    simp only [plainType, booleanType] at rule
    split at rule
    · cases rule
      rfl
    · cases rule
  | logicalValue | staticSize | isStaticallySized =>
    rcases builtinType_eq_ok rule with ⟨_, isInteger, rfl⟩ | ⟨_, rfl⟩
    · exact isInteger.symm
    · rfl
  | _ => cases rule

theorem sortOf_storedType (rule : storedType p own r object = .ok t) : sortOf t = sortOf own := by
  cases own with
  | integer =>
    rcases physicalBounds_eq_ok.1 rule with ⟨_, rfl⟩
    rfl
  | _ =>
    cases rule
    rfl

theorem isWord_unique {first second : String} (is : r.IsWord first) (isAgain : r.IsWord second) :
    first = second := by
  rcases is with ⟨_, nameIs, wordIs⟩
  rcases isAgain with ⟨_, nameAgain, wordAgain⟩
  cases nameIs.symm.trans nameAgain
  exact Option.some.inj (wordIs.symm.trans wordAgain)

/-- An expression that is not an operator stays well-typed with another type of its sort, and
with its own type if it is the value that is being written. -/
theorem wellTyped_withType (wellTyped : WellTyped p logical e) (isLeaf : e.call? = none)
    (same : sort? (e.withType (some t)) = sort? e)
    (given : ∀ r note, e = .builtinReference r note → r.IsWord "$logical_value" →
      e.type = some t) : WellTyped p logical (e.withType (some t)) := by
  cases wellTyped with
  | number sort => exact .number (same.trans sort)
  | truth sort => exact .truth (same.trans sort)
  | logicalValue isWord isGiven scalar =>
    exact .logicalValue isWord ((given _ _ rfl isWord).symm.trans isGiven) (same ▸ scalar)
  | staticSize isWord sort => exact .staticSize isWord (same.trans sort)
  | isStaticallySized isWord sort => exact .isStaticallySized isWord (same.trans sort)
  | enumValue named hasValue valueSort sort =>
    exact .enumValue named hasValue valueSort (same.trans sort)
  | fixed named isComputed sort isTyped => exact .fixed named isComputed (same.trans sort) isTyped
  | stored ends named isStored isTyped flag =>
    exact .stored ends named isStored (same ▸ isTyped) (same ▸ flag)
  | computed ends named isComputed sort isTyped =>
    exact .computed ends named isComputed (same.trans sort) isTyped
  | operation | presence => cases isLeaf

end BinaryLayout.Bounds
