import BinaryLayout.Proofs.Bounds.Physical
import BinaryLayout.Proofs.IR.Address

/-!
# Where types come from

While bounds are computed, expressions of the program are replaced one after the other by what
they settle to.  `Settles p s e e'` says which types an expression gets, part by part, in a program
`s` that has come from `p` in this way and in which the expressions that it refers to have theirs
already.  It does not say in which order this comes about: that is the business of the functions
that compute bounds.

Main statements: an expression settles in one way, a settled expression settles to itself, and
what it settles to is the same in every program that comes later.
-/

namespace BinaryLayout.Bounds

open IR Typing Checked List

/-! ## Programs that differ in expressions -/

section Rel

variable {α β : Type} {related : α → β → Prop} {part : Option α} {part' : Option β} {a : α} {b : β}

theorem exists_of_rel (rel : Option.Rel related part part') (there : part = some a) :
    ∃ b, part' = some b ∧ related a b := by
  subst there
  cases rel with
  | some here => exact ⟨_, rfl, here⟩

theorem exists_before_of_rel (rel : Option.Rel related part part') (there : part' = some b) :
    ∃ a, part = some a ∧ related a b := by
  subst there
  cases rel with
  | some here => exact ⟨_, rfl, here⟩

theorem eq_none_of_rel (rel : Option.Rel related part part') (missing : part = none) :
    part' = none := by
  subst missing
  cases rel
  rfl

end Rel

/-- Names lead to the same places in two programs, and the expressions there are related. -/
structure Evolves (related : Expression → Expression → Prop) (s s' : Program) : Prop where
  skeleton : s'.skeleton = s.skeleton
  expressions : ∀ a, Option.Rel related (s.expressionAt? a) (s'.expressionAt? a)

/-- An object of one program and the one with the same name in another. -/
structure ObjectEvolves (related : Expression → Expression → Prop) (object object' : Object) :
    Prop where
  skeleton : object'.skeleton = object.skeleton
  expressions : ∀ a, Option.Rel related (object.node.top? a) (object'.node.top? a)

section Evolves

variable {related related' : Expression → Expression → Prop} {s s' s'' : Program} {r : Reference}
  {name : CanonicalName} {object object' : Object} {e : Expression} {address : Address}

variable {f : Field} {physical physical' : TypeSpec} {typeName : CanonicalName}

theorem Evolves.find (evolves : Evolves related s s')
    (found : s.find name = .ok ⟨address, object⟩) :
    ∃ object', s'.find name = .ok ⟨address, object'⟩ ∧ ObjectEvolves related object object' := by
  rcases Program.find_of_skeleton_eq evolves.skeleton.symm found with
    ⟨⟨_, object'⟩, found', sameAddress, sameSkeleton⟩
  cases sameAddress
  refine ⟨object', found', sameSkeleton, fun a => ?_⟩
  have there := evolves.expressions (address ++ a)
  rwa [expressionAt?_append found, expressionAt?_append found'] at there

theorem Evolves.names (evolves : Evolves related s s') (named : r.Names s name object) :
    ∃ object', r.Names s' name object' ∧ ObjectEvolves related object object' := by
  rcases named with ⟨nameIs, address, found⟩
  rcases evolves.find found with ⟨object', found', same⟩
  exact ⟨object', ⟨nameIs, address, found'⟩, same⟩

theorem Evolves.mono (evolves : Evolves related s s')
    (weaker : ∀ e e', related e e' → related' e e') : Evolves related' s s' where
  skeleton := evolves.skeleton
  expressions := by
    intro a
    have rel := evolves.expressions a
    generalize s.expressionAt? a = part, s'.expressionAt? a = part' at rel ⊢
    cases rel with
    | some here => exact .some (weaker _ _ here)
    | none => exact .none

theorem Evolves.refl (reflexive : ∀ e, related e e) (s : Program) : Evolves related s s where
  skeleton := rfl
  expressions := fun a => by
    cases s.expressionAt? a with
    | none => exact .none
    | some e => exact .some (reflexive e)

theorem field_of_skeleton (same : object'.skeleton = (Object.field f).skeleton) :
    ∃ f', object' = .field f' ∧ f'.skeleton = f.skeleton := by
  cases object' with
  | field f' => exact ⟨f', rfl, Object.field.inj same⟩
  | _ => cases same

theorem parameter_of_skeleton {q : RuntimeParameter}
    (same : object'.skeleton = (Object.parameter q).skeleton) :
    ∃ q', object' = .parameter q' ∧ q'.skeleton = q.skeleton := by
  cases object' with
  | parameter q' => exact ⟨q', rfl, Object.parameter.inj same⟩
  | _ => cases same

theorem isVirtual_of_skeleton {f' : Field} (same : f'.skeleton = f.skeleton) :
    f'.isVirtual = f.isVirtual := by
  rw [← Field.isVirtual_skeleton, same, Field.isVirtual_skeleton]

/-! ## The same bounds of physical fields -/

/-- A constant value that one expression has the other has, too. -/
def Remains (e e' : Expression) : Prop :=
  ∀ c, e.constantValue? = .ok c → e'.constantValue? = .ok c

theorem numberOf_of_rel {part part' : Option Expression} {size : Option Int}
    (rel : Option.Rel Remains part part') (run : numberOf part = .ok size) :
    numberOf part' = .ok size := by
  cases rel with
  | none => exact run
  | some remains =>
    simp only [numberOf, bind_eq_ok] at run ⊢
    rcases run with ⟨c, constant, same⟩
    exact ⟨c, remains c constant, same⟩

theorem physicalType_evolves (evolves : ObjectEvolves Remains object object')
    (run : physicalTypeOf object = .ok physical) :
    ∃ physical', physicalTypeOf object' = .ok physical' ∧
      physical'.skeleton = physical.skeleton ∧
      Option.Rel Remains physical.sizeInBits physical'.sizeInBits := by
  cases object with
  | field f =>
    have isType : f.type = some physical := Failure.require_eq_ok.1 run
    rcases field_of_skeleton evolves.skeleton with ⟨f', rfl, same⟩
    have sameType := congrArg Field.type same
    simp only [Field.skeleton, isType, Option.map_some] at sameType
    rcases Option.map_eq_some_iff.1 sameType with ⟨physical', isType', sameSkeleton⟩
    refine ⟨physical', Failure.require_eq_ok.2 isType', sameSkeleton, ?_⟩
    have sizes := evolves.expressions [⟨"type", 0⟩, ⟨"size_in_bits", 0⟩]
    rwa [Object.node, Object.node, top?_fieldType isType, top?_fieldType isType', top?_sizeInBits,
      top?_sizeInBits] at sizes
  | parameter q =>
    have isType : q.physicalType = some physical := Failure.require_eq_ok.1 run
    rcases parameter_of_skeleton evolves.skeleton with ⟨q', rfl, same⟩
    have sameType := congrArg RuntimeParameter.physicalType same
    simp only [RuntimeParameter.skeleton, isType, Option.map_some] at sameType
    rcases Option.map_eq_some_iff.1 sameType with ⟨physical', isType', sameSkeleton⟩
    refine ⟨physical', Failure.require_eq_ok.2 isType', sameSkeleton, ?_⟩
    have sizes := evolves.expressions [⟨"physical_type_alias", 0⟩, ⟨"size_in_bits", 0⟩]
    rwa [Object.node, Object.node, top?_parameterType isType, top?_parameterType isType',
      top?_sizeInBits, top?_sizeInBits] at sizes
  | _ => cases run

theorem sizeOfObject_evolves {parent parent' : Object} {size : Option Int}
    (evolves : ObjectEvolves Remains object object')
    (sameParent : parent'.skeleton = parent.skeleton)
    (declared : physicalTypeOf object = .ok physical)
    (sizes : Option.Rel Remains physical.sizeInBits physical'.sizeInBits)
    (run : sizeOfObject parent object physical = .ok size) :
    sizeOfObject parent' object' physical' = .ok size := by
  cases own : physical.sizeInBits with
  | some e =>
    rcases exists_of_rel sizes own with ⟨e', own', _⟩
    simp only [sizeOfObject, own] at run
    simp only [sizeOfObject, own']
    rw [own, own'] at sizes
    exact numberOf_of_rel sizes run
  | none =>
    have own' := eq_none_of_rel sizes own
    cases object with
    | field f =>
      rcases field_of_skeleton evolves.skeleton with ⟨f', rfl, same⟩
      simp only [sizeOfObject, own, own', bind_eq_ok, Failure.require_eq_ok] at run ⊢
      rcases run with ⟨placement, isPlaced, length, lengthRun, run⟩
      have samePlace := congrArg Field.placement same
      simp only [Field.skeleton, isPlaced, Option.map_some] at samePlace
      rcases Option.map_eq_some_iff.1 samePlace with ⟨placement', isPlaced', _⟩
      have lengths := evolves.expressions [⟨"location", 0⟩, ⟨"size", 0⟩]
      rw [Object.node, Object.node, top?_placement isPlaced, top?_placement isPlaced', top?_length,
        top?_length] at lengths
      refine ⟨placement', isPlaced', length, numberOf_of_rel lengths lengthRun, ?_⟩
      cases length with
      | none => exact run
      | some n =>
        cases parent with
        | definition t =>
          cases parent' with
          | definition t' =>
            have sameUnit := congrArg TypeDefinition.unit
              (Object.definition.inj sameParent)
            rw [TypeDefinition.unit_skeleton, TypeDefinition.unit_skeleton] at sameUnit
            simp only [sameUnit]
            exact run
          | _ => cases sameParent
        | _ => exact (throw_ne_ok run).elim
    | parameter q =>
      rcases parameter_of_skeleton evolves.skeleton with ⟨q', rfl, _⟩
      simp only [sizeOfObject, own, own'] at run ⊢
      exact run
    | _ => cases declared

theorem denotes_of_skeleton (same : physical'.skeleton = physical.skeleton)
    (denotes : Denotes physical typeName) : Denotes physical' typeName := by
  rcases denotes with ⟨_, reference, isAtom, isReference, isName⟩
  cases physical with
  | atomic =>
    cases isAtom
    cases physical' with
    | atomic atom' =>
      simp only [TypeSpec.skeleton, TypeSpec.atomic.injEq, AtomicType.mk.injEq] at same
      exact ⟨atom', reference, rfl, same.1.1.trans isReference, isName⟩
    | _ => cases same
  | _ => cases isAtom

theorem rangeOfType_congr (denotes : Denotes physical typeName)
    (denotes' : Denotes physical' typeName) (size : Option Int) :
    rangeOfType physical' size = rangeOfType physical size := by
  cases size with
  | none => rfl
  | some n => rw [rangeOfType_eq denotes, rangeOfType_eq denotes']

theorem storedType_evolves {own t : ExpressionType} (evolves : Evolves Remains s s')
    (same : ObjectEvolves Remains object object') (run : storedType s own r object = .ok t) :
    storedType s' own r object' = .ok t := by
  cases own with
  | integer =>
    rcases physicalBounds_eq_ok.1 run with ⟨source, rfl⟩
    rcases Program.findParent_of_skeleton_eq evolves.skeleton.symm source.parentIs with
      ⟨parent', parentIs', _, sameParent⟩
    rcases physicalType_evolves same source.physicalIs with
      ⟨physical', physicalIs', sameSkeleton, sizes⟩
    have denotes := denotes_of_skeleton sameSkeleton source.typeNameIs
    have rangeIs := source.rangeIs
    rw [← rangeOfType_congr source.typeNameIs denotes] at rangeIs
    exact physicalBounds_eq_ok.2 ⟨⟨source.name, parent', physical', source.size, source.typeName,
      source.range, source.nameIs, parentIs', physicalIs',
      sizeOfObject_evolves same sameParent source.physicalIs sizes source.sizeIs, denotes,
      source.isBuiltIn, rangeIs⟩, rfl⟩
  | _ => exact run

end Evolves

/-! ## Sources of types -/

/-- The arguments of an operator or function. -/
def arguments : Expression → List Expression
  | .function _ args _ _ _ => args
  | _ => []

def withArguments (args : List Expression) : Expression → Expression
  | .function operator _ word location note => .function operator args word location note
  | e => e

/-- Where what is known of the presence of a field comes from. -/
def presenceOf (found : Found) : Checked BoundSource :=
  match found.object with
  | .field _ => return .expression (found.address ++ [⟨"existence_condition", 0⟩])
  | _ => .error .unset

/-- Where the type of an expression comes from whose arguments have theirs. -/
def sourceOf (s : Program) (own : ExpressionType) (e : Expression) : Checked BoundSource :=
  match e with
  | .unset _ => .error .invariant
  | .constantReference r _ =>
    match r.canonicalName with
    | none => .error (if s.modules.isEmpty then .invariant else .illTyped)
    | some name => s.find name >>= constantSource
  | .fieldReference r _ => do
    let target ← Failure.lastOf r.path
    fieldSource s own target (← s.resolve target)
  | .function operator args _ _ _ => do
    match operator with
    | none => throw .invariant
    | some .presence =>
      match ← Failure.element args 0 with
      | .fieldReference r _ => presenceOf (← s.resolve (← Failure.lastOf r.path))
      | _ => throw .unset
    | some operator => return .known (← operatorType operator own args)
  | e => return .known (← plainType own e)

/-- The address of the expression that a type is taken from. -/
def BoundSource.address? : BoundSource → Option Address
  | .known _ => none
  | .expression a | .enumValue a => some a

/-- The type that comes from a source, with what is known of the expression there. -/
def readSource (s : Program) (own : ExpressionType) : BoundSource → Checked ExpressionType
  | .known t => .ok t
  | .expression a => do
    let e ← Failure.require (s.expressionAt? a)
    return takeOver own (← Failure.require e.type)
  | .enumValue a => do enumValueType own (← Failure.require (s.expressionAt? a))

section Sources

variable {s s' : Program} {own t : ExpressionType} {e : Expression} {source : BoundSource}
  {a address : Address} {r : Reference} {object object' : Object} {found : Found}

theorem resolve_eq_ok :
    s.resolve r = .ok found ↔ ∃ name, r.canonicalName = some name ∧ s.find name = .ok found := by
  rw [Program.resolve, bind_eq_ok]
  simp

theorem constantSource_congr (same : object'.skeleton = object.skeleton) :
    constantSource ⟨address, object'⟩ = constantSource ⟨address, object⟩ := by
  cases object with
  | field f =>
    rcases field_of_skeleton same with ⟨f', rfl, sameField⟩
    simp only [constantSource, isVirtual_of_skeleton sameField]
  | _ => cases object' <;> first | cases same | rfl

theorem presenceOf_congr (same : object'.skeleton = object.skeleton) :
    presenceOf ⟨address, object'⟩ = presenceOf ⟨address, object⟩ := by
  cases object <;> cases object' <;> first | cases same | rfl

/-- A reference to a virtual field is taken from its expression, one to anything else is stored. -/
theorem fieldSource_eq :
    fieldSource s own r ⟨address, object⟩ = match object with
      | .field f =>
        if f.isVirtual then .ok (.expression (address ++ [⟨"read_transform", 0⟩]))
        else .known <$> storedType s own r object
      | _ => .known <$> storedType s own r object := by
  cases object <;> cases own <;> rfl

theorem fieldSource_evolves (evolves : Evolves Remains s s')
    (same : ObjectEvolves Remains object object')
    (run : fieldSource s own r ⟨address, object⟩ = .ok source) :
    fieldSource s' own r ⟨address, object'⟩ = .ok source := by
  have stored (run : .known <$> storedType s own r object = .ok source) :
      .known <$> storedType s' own r object' = .ok source := by
    rw [map_eq_ok] at run ⊢
    exact run.imp fun _ => And.imp_left (storedType_evolves evolves same)
  rw [fieldSource_eq] at run ⊢
  cases object with
  | field f =>
    rcases field_of_skeleton same.skeleton with ⟨f', rfl, sameField⟩
    simp only [isVirtual_of_skeleton sameField] at run ⊢
    split at run
    · rwa [if_pos ‹_›]
    · rw [if_neg ‹_›]
      exact stored run
  | _ =>
    have sameKind := same.skeleton
    cases object' <;> first | cases sameKind | exact stored run

theorem Evolves.resolve (evolves : Evolves Remains s s')
    (run : s.resolve r = .ok ⟨address, object⟩) :
    ∃ object', s'.resolve r = .ok ⟨address, object'⟩ ∧ ObjectEvolves Remains object object' := by
  rcases resolve_eq_ok.1 run with ⟨name, nameIs, found⟩
  rcases evolves.find found with ⟨object', found', same⟩
  exact ⟨object', resolve_eq_ok.2 ⟨name, nameIs, found'⟩, same⟩

/-- What is the source of a type is still so where more is known. -/
theorem sourceOf_evolves (evolves : Evolves Remains s s') (run : sourceOf s own e = .ok source) :
    sourceOf s' own e = .ok source := by
  cases e with
  | constantReference r =>
    cases nameIs : r.canonicalName with
    | none => simp [sourceOf, nameIs] at run
    | some name =>
      simp only [sourceOf, nameIs, bind_eq_ok] at run ⊢
      rcases run with ⟨⟨address, object⟩, found, run⟩
      rcases evolves.find found with ⟨object', found', same⟩
      exact ⟨_, found', (constantSource_congr same.skeleton).trans run⟩
  | fieldReference r =>
    simp only [sourceOf, bind_eq_ok] at run ⊢
    rcases run with ⟨last, ends, ⟨address, object⟩, found, run⟩
    rcases evolves.resolve found with ⟨object', found', same⟩
    exact ⟨last, ends, _, found', fieldSource_evolves evolves same run⟩
  | function operator args =>
    rcases operator with _ | _ | _
    case some.presence =>
      simp only [sourceOf, bind_eq_ok] at run ⊢
      rcases run with ⟨arg, isFirst, run⟩
      refine ⟨arg, isFirst, ?_⟩
      cases arg with
      | fieldReference r =>
        simp only [bind_eq_ok] at run ⊢
        rcases run with ⟨last, ends, ⟨address, object⟩, found, run⟩
        rcases evolves.resolve found with ⟨object', found', same⟩
        exact ⟨last, ends, _, found', (presenceOf_congr same.skeleton).trans run⟩
      | _ => exact run
    all_goals exact run
  | _ => exact run

theorem readSource_again (read : readSource s own source = .ok t) (isOpen : t.isConstant = false) :
    readSource s t source = .ok t := by
  cases source with
  | known => exact read
  | expression a =>
    simp only [readSource, bind_eq_ok, pure_eq_ok] at read ⊢
    rcases read with ⟨e, there, t', hasType, rfl⟩
    exact ⟨e, there, t', hasType, takeOver_takeOver own t'⟩
  | enumValue a =>
    simp only [readSource, bind_eq_ok] at read
    rcases read with ⟨e, _, rule⟩
    rcases enumValueType_eq_ok rule with ⟨_, _, _, rfl⟩
    cases isOpen

/-- Where a type comes from, it comes from once more. -/
theorem sourceOf_again (run : sourceOf s own e = .ok source)
    (read : readSource s own source = .ok t) (isOpen : t.isConstant = false) :
    sourceOf s t (e.withType (some t)) = .ok source := by
  cases e with
  | unset => cases run
  | constantReference => exact run
  | fieldReference r =>
    change sourceOf s t (.fieldReference r _) = _
    simp only [sourceOf, bind_eq_ok] at run ⊢
    rcases run with ⟨last, ends, ⟨address, object⟩, found, run⟩
    refine ⟨last, ends, _, found, ?_⟩
    have stored (run : .known <$> storedType s own last object = .ok source) :
        .known <$> storedType s t last object = .ok source := by
      rcases map_eq_ok.1 run with ⟨_, rule, rfl⟩
      cases read
      exact map_eq_ok.2 ⟨t, storedType_again rule, rfl⟩
    rw [fieldSource_eq] at run ⊢
    cases object with
    | field f =>
      simp only at run ⊢
      split at run
      · rwa [if_pos ‹_›]
      · rw [if_neg ‹_›]
        exact stored run
    | _ => exact stored run
  | function operator args =>
    rcases operator with _ | operator
    · cases run
    · cases operator
      case presence => exact run
      all_goals
        rcases bind_eq_ok.1 run with ⟨_, rule, same⟩
        cases same
        cases read
        exact bind_eq_ok.2 ⟨t, operatorType_again rule isOpen, rfl⟩
  | _ =>
    rcases bind_eq_ok.1 run with ⟨_, rule, same⟩
    cases same
    cases read
    exact bind_eq_ok.2 ⟨t, plainType_again rule isOpen, rfl⟩

end Sources

/-! ## Settled expressions -/

/-- An expression gets its types, and those of its parts, in a program that has come from `p`. -/
inductive Settles (p s : Program) : Expression → Expression → Prop
  /-- A part of which the value is known stays as it is. -/
  | kept {e : Expression} {t : ExpressionType} (hasType : e.type = some t)
      (isConstant : t.isConstant = true) : Settles p s e e
  /-- The expression that the type is taken from has been settled where it stands. -/
  | opened {e e' before : Expression} {own t : ExpressionType} {args : List Expression}
      {source : BoundSource} (hasType : e.type = some own) (isOpen : own.isConstant = false)
      (sameLength : (arguments e).length = args.length)
      (each : ∀ pair ∈ (arguments e).zip args, Settles p s pair.1 pair.2)
      (sourceIs : sourceOf s own (withArguments args e) = .ok source)
      (begins : ∀ a, source.address? = some a → p.expressionAt? a = some before)
      (target : ∀ a c, source.address? = some a → s.expressionAt? a = some c →
        Settles p s before c)
      (read : readSource s own source = .ok t)
      (settled : settle (withArguments args e) t = .ok e') : Settles p s e e'

section Settles

variable {p s s' : Program} {own t : ExpressionType} {e e' e₁ e₂ : Expression}
  {source : BoundSource} {args args' : List Expression}

theorem arguments_withType (t : Option ExpressionType) (e : Expression) :
    arguments (e.withType t) = arguments e := by
  cases e <;> rfl

theorem withArguments_withType (args : List Expression) (t : Option ExpressionType)
    (e : Expression) : withArguments args (e.withType t) = (withArguments args e).withType t := by
  cases e <;> rfl

theorem withArguments_withArguments (args args' : List Expression) (e : Expression) :
    withArguments args (withArguments args' e) = withArguments args e := by
  cases e <;> rfl

theorem arguments_withArguments (sameLength : (arguments e).length = args.length) :
    arguments (withArguments args e) = args := by
  cases e with
  | function => rfl
  | _ => exact (length_eq_zero_iff.1 sameLength.symm).symm

theorem arguments_unique {first second : List Expression}
    (unique : Forall₂ (fun e e' => ∀ other, Settles p s e other → e' = other) args first)
    (again : Forall₂ (Settles p s) args second) : first = second := by
  induction unique generalizing second with
  | nil =>
    cases again
    rfl
  | cons head _ ih =>
    rcases again with _ | ⟨own, others⟩
    rw [head _ own, ih others]

theorem arguments_again (again : Forall₂ (fun _ e => Settles p s e e) args args') :
    ∀ pair ∈ args'.zip args', Settles p s pair.1 pair.2 := by
  induction again with
  | nil => simp
  | cons head _ ih => exact forall_mem_cons.2 ⟨head, ih⟩

theorem Settles.unique (first : Settles p s e e₁) (second : Settles p s e e₂) : e₁ = e₂ := by
  induction first generalizing e₂ with
  | kept hasType isConstant =>
    cases second with
    | kept => rfl
    | opened hasType' isOpen => exact (not_open_of_constant hasType' isOpen hasType isConstant).elim
  | opened hasType isOpen sameLength _ sourceIs _ _ read settled ih =>
    cases second with
    | kept hasType' isConstant =>
      exact (not_open_of_constant hasType isOpen hasType' isConstant).elim
    | opened hasType' _ sameLength' each sourceIs' _ _ read' settled' =>
      cases hasType.symm.trans hasType'
      cases arguments_unique (forall₂_of_zip sameLength fun pair member other => ih pair member)
        (forall₂_of_zip sameLength' each)
      cases sourceIs.symm.trans sourceIs'
      cases read.symm.trans read'
      exact Except.ok.inj (settled.symm.trans settled')

/-- An expression with its type has the arguments that it was given. -/
theorem arguments_of_settle (sameLength : (arguments e).length = args.length)
    (settled : settle (withArguments args e) t = .ok e') :
    arguments e' = args ∧ withArguments args e' = e' := by
  rw [(settle_eq_ok.1 settled).2, arguments_withType, arguments_withArguments sameLength,
    withArguments_withType, withArguments_withArguments]
  exact ⟨rfl, rfl⟩

theorem Settles.again (settles : Settles p s e e') : Settles p s e' e' := by
  induction settles with
  | kept hasType isConstant => exact .kept hasType isConstant
  | @opened e e' _ _ t args _ _ _ sameLength _ sourceIs begins target read settled ih =>
    have hasType := type_of_settle settled
    cases isConstant : t.isConstant with
    | true => exact .kept hasType isConstant
    | false =>
      have sourceIs' := sourceOf_again sourceIs read isConstant
      rcases arguments_of_settle sameLength settled with ⟨argumentsAre, same⟩
      rw [← (settle_eq_ok.1 settled).2, ← same] at sourceIs'
      refine .opened hasType isConstant (congrArg length argumentsAre) ?_ sourceIs' begins target
        (readSource_again read isConstant) ?_
      · rw [argumentsAre]
        exact arguments_again (forall₂_of_zip sameLength ih)
      · rw [same]
        exact settle_again settled

theorem Settles.remains (settles : Settles p s e e') : Remains e e' := by
  induction settles with
  | kept => exact fun c known => known
  | @opened e e' _ own t args _ hasType isOpen sameLength _ _ _ _ _ settled ih =>
    rw [(settle_eq_ok.1 settled).2]
    cases e with
    | function => exact fun c => constantValue_of_arguments (forall₂_of_zip sameLength ih)
    | constantReference =>
      exact fun c known => (constantReference_of_open hasType isOpen known).elim
    | _ => exact fun c known => known

/-- A program differs from another in expressions that were not settled, and no constant value
is lost. -/
structure Keeps (p s s' : Program) : Prop extends Evolves Remains s s' where
  stays : ∀ a c, s.expressionAt? a = some c → Settles p s c c → s'.expressionAt? a = some c

/-- What a settled expression says of another is the same later. -/
theorem Keeps.readSource {before : Expression} (keeps : Keeps p s s')
    (target : ∀ a c, source.address? = some a → s.expressionAt? a = some c →
      Settles p s before c) (read : readSource s own source = .ok t) :
    Bounds.readSource s' own source = .ok t := by
  cases source with
  | known => exact read
  | expression a | enumValue a =>
    simp only [Bounds.readSource, bind_eq_ok, Failure.require_eq_ok] at read ⊢
    rcases read with ⟨c, there, rule⟩
    exact ⟨c, keeps.stays a c there (target a c rfl there).again, rule⟩

theorem Keeps.settles (keeps : Keeps p s s') (settles : Settles p s e e') : Settles p s' e e' := by
  induction settles with
  | kept hasType isConstant => exact .kept hasType isConstant
  | opened hasType isOpen sameLength _ sourceIs begins target read settled ih inTarget =>
    refine .opened hasType isOpen sameLength ih (sourceOf_evolves keeps.toEvolves sourceIs) begins
      (fun a c isAddress there => ?_) (keeps.readSource target read) settled
    have rel := keeps.expressions a
    cases found : s.expressionAt? a with
    | none =>
      cases (eq_none_of_rel rel found).symm.trans there
    | some c' =>
      cases (keeps.stays a c' found (target a c' isAddress found).again).symm.trans there
      exact inTarget a c isAddress found

theorem Keeps.refl (p s : Program) : Keeps p s s where
  toEvolves := .refl (fun _ _ known => known) s
  stays := fun _ _ there _ => there

theorem Keeps.trans {s'' : Program} (first : Keeps p s s') (second : Keeps p s' s'') :
    Keeps p s s'' where
  skeleton := second.skeleton.trans first.skeleton
  expressions := fun a => by
    have toMiddle := first.expressions a
    have toEnd := second.expressions a
    generalize s.expressionAt? a = part, s'.expressionAt? a = part', s''.expressionAt? a = part''
      at toMiddle toEnd
    cases toMiddle with
    | none => exact toEnd
    | some remains =>
      cases toEnd with
      | some remains' => exact .some fun c known => remains' c (remains c known)
  stays := fun a c there settles =>
    second.stays a c (first.stays a c there settles) (first.settles settles)

end Settles

end BinaryLayout.Bounds
