import BinaryLayout.Proofs.Bounds.Run

/-!
# Well-typed programs

Main statements: a well-typed expression of which nothing but the sort is known is complete when it
is settled.  So it is in every program in which the bounds of some expressions have been computed,
one after the other.
-/

namespace BinaryLayout.Bounds

open IR Typing Checked List

/-- Every expression of a program is well-typed; none stands where a logical value is known. -/
def AllTyped (p : Program) : Prop :=
  ∀ a e, p.expressionAt? a = some e → WellTyped p none e

/-- Nothing beyond the sort is known of any part of an expression. -/
abbrev Untouched : Expression → Prop :=
  Pending fun _ => False

/-- A program of which no bounds have been computed. -/
structure Prepared (p : Program) : Prop where
  wellTyped : AllTyped p
  untouched : ∀ a e, p.expressionAt? a = some e → Untouched e

section WellTyped

variable {related : Expression → Expression → Prop} {p s s' : Program} {e e' : Expression}
  {logical : Option ExpressionType} {t : ExpressionType} {object object' : Object}

theorem Untouched.isOpen (untouched : Untouched e) (hasType : e.type = some t) :
    t.isConstant = false := by
  cases untouched with
  | done impossible => exact impossible.elim
  | leaf _ isOpen | call isOpen => exact isOpen t hasType

theorem Untouched.arguments (untouched : Untouched e) : ∀ arg ∈ arguments e, Untouched arg := by
  cases untouched with
  | done impossible => exact impossible.elim
  | leaf isLeaf =>
    cases e with
    | function => cases isLeaf
    | _ => exact forall_mem_nil _
  | call _ each => exact each

theorem ObjectEvolves.isStored (evolves : ObjectEvolves related object object')
    (isStored : object.isStored) : object'.isStored := by
  cases object with
  | field f =>
    rcases field_of_skeleton evolves.skeleton with ⟨f', rfl, same⟩
    rw [Object.isStored, isVirtual_of_skeleton same]
    exact isStored
  | parameter q =>
    rcases parameter_of_skeleton evolves.skeleton with ⟨q', rfl, _⟩
    rfl
  | _ => cases isStored

theorem ObjectEvolves.computed? (evolves : ObjectEvolves related object object')
    (isComputed : object.computed? = some e) :
    ∃ e', object'.computed? = some e' ∧ related e e' := by
  cases object with
  | field f =>
    rcases field_of_skeleton evolves.skeleton with ⟨f', rfl, same⟩
    simp only [Object.computed?] at isComputed ⊢
    split at isComputed
    · rename_i isVirtual
      rw [isVirtual_of_skeleton same, if_pos isVirtual, ← top?_readTransform]
      exact exists_of_rel (evolves.expressions _) ((top?_readTransform f).trans isComputed)
    · cases isComputed
  | _ => cases isComputed

theorem ObjectEvolves.condition? (evolves : ObjectEvolves related object object')
    (conditional : object.condition? = some e) :
    ∃ e', object'.condition? = some e' ∧ related e e' := by
  cases object with
  | field f =>
    rcases field_of_skeleton evolves.skeleton with ⟨f', rfl, _⟩
    rw [Object.condition?, ← top?_existenceCondition]
    exact exists_of_rel (evolves.expressions _) ((top?_existenceCondition f).trans conditional)
  | _ => cases conditional

theorem ObjectEvolves.value {v : EnumValue} (evolves : ObjectEvolves related (.enumValue v) object')
    (hasValue : v.value = some e) :
    ∃ v' e', object' = .enumValue v' ∧ v'.value = some e' ∧ related e e' := by
  have same := evolves.skeleton
  cases object' with
  | enumValue v' =>
    rcases exists_of_rel (evolves.expressions _) ((top?_value v).trans hasValue) with
      ⟨e', there, evolved⟩
    exact ⟨v', e', rfl, (top?_value v').symm.trans there, evolved⟩
  | _ => cases same

theorem typeName?_skeleton (object : Object) : object.skeleton.typeName? = object.typeName? := by
  have same (physical : Option TypeSpec) :
      ((physical.map TypeSpec.skeleton).bind TypeSpec.atom?).bind AtomicType.reference =
        (physical.bind TypeSpec.atom?).bind AtomicType.reference := by
    rcases physical with _ | _ | _ <;> rfl
  cases object with
  | field f =>
    have ofType := same f.type
    simp only [Object.typeName?, Object.physicalType?, Object.skeleton, Field.skeleton, bind,
      ← Option.bind_assoc, ofType]
  | parameter q =>
    have ofType := same q.physicalType
    simp only [Object.typeName?, Object.physicalType?, Object.skeleton,
      RuntimeParameter.skeleton, bind, ← Option.bind_assoc, ofType]
  | _ => rfl

theorem ObjectEvolves.isFlag (evolves : ObjectEvolves related object object') :
    object'.isFlag = object.isFlag := by
  rw [Object.isFlag, ← typeName?_skeleton, evolves.skeleton, typeName?_skeleton]
  rfl

/-- An expression stays well-typed where the others keep their sorts. -/
theorem Evolves.wellTyped (evolves : Evolves (fun e e' => sort? e' = sort? e) s s')
    (wellTyped : WellTyped s logical e) : WellTyped s' logical e := by
  induction wellTyped with
  | number sort => exact .number sort
  | truth sort => exact .truth sort
  | logicalValue isWord given scalar => exact .logicalValue isWord given scalar
  | staticSize isWord sort => exact .staticSize isWord sort
  | isStaticallySized isWord sort => exact .isStaticallySized isWord sort
  | enumValue named hasValue valueSort sort =>
    rcases evolves.names named with ⟨_, named', same⟩
    rcases same.value hasValue with ⟨v', e', rfl, hasValue', sameSort⟩
    exact .enumValue named' hasValue' (sameSort.trans valueSort) sort
  | fixed named isComputed sort isTyped =>
    rcases evolves.names named with ⟨_, named', same⟩
    rcases same.computed? isComputed with ⟨e', isComputed', sameSort⟩
    exact .fixed named' isComputed' (sort.trans sameSort.symm) (sameSort.symm ▸ isTyped)
  | stored ends named isStored isTyped flag =>
    rcases evolves.names named with ⟨_, named', same⟩
    exact .stored ends named' (same.isStored isStored) isTyped (same.isFlag.symm ▸ flag)
  | computed ends named isComputed sort isTyped =>
    rcases evolves.names named with ⟨_, named', same⟩
    rcases same.computed? isComputed with ⟨e', isComputed', sameSort⟩
    exact .computed ends named' isComputed' (sort.trans sameSort.symm) (sameSort.symm ▸ isTyped)
  | operation _ accepts ih => exact .operation ih accepts
  | presence _ ends named conditional conditionSort sort ih =>
    rcases evolves.names named with ⟨_, named', same⟩
    rcases same.condition? conditional with ⟨e', conditional', sameSort⟩
    exact .presence ih ends named' conditional' (sameSort.trans conditionSort) sort

theorem computed?_eq_some :
    object.computed? = some e ↔ (∃ f, object = .field f ∧ f.isVirtual = true) ∧
      object.node.top? [⟨"read_transform", 0⟩] = some e := by
  cases object with
  | field f =>
    rw [Object.node, top?_readTransform]
    simp [Object.computed?]
  | _ => simp [Object.computed?]

theorem ObjectEvolves.computed?_of_top? (evolves : ObjectEvolves related object object')
    (isComputed : object.computed? = some e)
    (isNow : object'.node.top? [⟨"read_transform", 0⟩] = some e') :
    object'.computed? = some e' := by
  rcases evolves.computed? isComputed with ⟨_, isComputed', _⟩
  cases (computed?_eq_some.1 isComputed').2.symm.trans isNow
  exact isComputed'

theorem condition?_eq_some :
    object.condition? = some e ↔
      (∃ f, object = .field f) ∧ object.node.top? [⟨"existence_condition", 0⟩] = some e := by
  cases object with
  | field f =>
    rw [Object.node, top?_existenceCondition]
    simp [Object.condition?]
  | _ => simp [Object.condition?]

section Source

variable {own : ExpressionType} {source : BoundSource} {address : Address} {r : Reference}
  {path : FieldReference} {name : CanonicalName} {found : Found} {f : Field} {note : Annotation}
  {args : List Expression} {word : Option Word} {location : Option Location}

theorem sourceOf_constant (nameIs : r.canonicalName = some name) (run : s.find name = .ok found) :
    sourceOf s own (.constantReference r note) = constantSource found := by
  simp only [sourceOf, nameIs, run]
  rfl

theorem sourceOf_field (ends : path.path.getLast? = some r) (nameIs : r.canonicalName = some name)
    (run : s.find name = .ok found) :
    sourceOf s own (.fieldReference path note) = fieldSource s own r found := by
  rw [sourceOf, Failure.lastOf_eq_ok.2 ends]
  change s.resolve r >>= _ = _
  rw [resolve_eq_ok.2 ⟨name, nameIs, run⟩]
  rfl

theorem sourceOf_presence {inner : Annotation} (ends : path.path.getLast? = some r)
    (nameIs : r.canonicalName = some name) (run : s.find name = .ok found) :
    sourceOf s own (.function (some .presence) (.fieldReference path inner :: args) word location
      note) = presenceOf found := by
  change Failure.lastOf path.path >>= (fun last => s.resolve last >>= presenceOf) = _
  rw [Failure.lastOf_eq_ok.2 ends]
  change s.resolve r >>= presenceOf = _
  rw [resolve_eq_ok.2 ⟨name, nameIs, run⟩]
  rfl

theorem sourceOf_operator {operator : Operator} (other : operator ≠ .presence)
    (run : sourceOf s own (.function (some operator) args word location note) = .ok source) :
    ∃ t, operatorType operator own args = .ok t ∧ .known t = source := by
  cases operator
  case presence => exact (other rfl).elim
  all_goals
    rcases bind_eq_ok.1 run with ⟨t, rule, same⟩
    exact ⟨t, rule, pure_eq_ok.1 same⟩

theorem constantSource_virtual (isVirtual : f.isVirtual = true) :
    constantSource ⟨address, .field f⟩ =
      .ok (.expression (address ++ [⟨"read_transform", 0⟩])) := by
  simp [constantSource, isVirtual, bind, Except.bind]

theorem fieldSource_virtual (isVirtual : f.isVirtual = true)
    (same : object.skeleton = (Object.field f).skeleton) :
    fieldSource s own r ⟨address, object⟩ =
      .ok (.expression (address ++ [⟨"read_transform", 0⟩])) := by
  rcases field_of_skeleton same with ⟨f', rfl, sameField⟩
  rw [fieldSource_eq]
  exact if_pos ((isVirtual_of_skeleton sameField).trans isVirtual)

theorem fieldSource_of_isStored (isStored : object.isStored) :
    fieldSource s own r ⟨address, object⟩ = .known <$> storedType s own r object := by
  rw [fieldSource_eq]
  cases object with
  | field f => exact if_neg (by simpa [Object.isStored] using isStored)
  | _ => rfl

end Source

theorem readSource_expression {a : Address} {c : Expression} {own : ExpressionType}
    (there : s.expressionAt? a = some c) (read : readSource s own (.expression a) = .ok t) :
    ∃ t', c.type = some t' ∧ t = takeOver own t' := by
  simp only [readSource, bind_eq_ok, Failure.require_eq_ok, there, Option.some.injEq,
    exists_eq_left', pure_eq_ok] at read
  rcases read with ⟨t', hasType, rfl⟩
  exact ⟨t', hasType, rfl⟩

/-- An expression is completed, stays well-typed and keeps its sort. -/
structure Finishes (s : Program) (logical : Option ExpressionType) (e e' : Expression) : Prop where
  sort : sort? e' = sort? e
  wellTyped : WellTyped s logical e'
  completes : Completes s e e'

section Finishes

variable {own : ExpressionType} {before other : Expression} {args args' : List Expression}
  {word : Option Word} {location : Option Location}

theorem finishes_of_settle (typed : WellTyped s logical e) (isLeaf : e.call? = none)
    (hasType : e.type = some own) (settled : settle e t = .ok e') (same : sortOf t = sortOf own)
    (given : ∀ r note, e = .builtinReference r note → r.IsWord "$logical_value" → own = t)
    (completes : Completes s e e') : Finishes s logical e e' := by
  have sort : sort? e' = sort? e := by
    rw [sort?_of_settle settled, sort?_of_type hasType, same]
  refine ⟨sort, ?_, completes⟩
  rw [(settle_eq_ok.1 settled).2] at sort ⊢
  exact wellTyped_withType typed isLeaf sort fun r note isBuiltin isWord =>
    given r note isBuiltin isWord ▸ hasType

theorem finishes_plain (typed : WellTyped s logical e) (hasType : e.type = some own)
    (isOpen : own.isConstant = false) (rule : plainType own e = .ok t)
    (settled : settle e t = .ok e') : Finishes s logical e e' := by
  refine finishes_of_settle typed (by cases e <;> first | rfl | cases rule) hasType settled
    (sortOf_plainType typed hasType rule) ?_ (.plain hasType isOpen rule settled)
  rintro r note rfl isWord
  rcases builtinType_eq_ok rule with ⟨isSize, _⟩ | ⟨_, rfl⟩
  · exact absurd (isWord_unique isWord isSize) (by decide)
  · rfl

theorem finishes_refers (typed : WellTyped s logical e) (hasType : e.type = some own)
    (isOpen : own.isConstant = false) (refers : Refers s e other)
    (inner : Completes s before other) (otherType : other.type = some t)
    (same : sort? other = sort? e) (settled : settle e (takeOver own t) = .ok e') :
    Finishes s logical e e' := by
  rw [sort?_of_type otherType, sort?_of_type hasType] at same
  refine finishes_of_settle typed (by cases refers <;> rfl) hasType settled (sortOf_takeOver same)
    ?_ (.refers hasType isOpen refers inner otherType settled)
  rintro _ _ rfl
  cases refers

theorem arguments_finish (sameLength : args.length = args'.length)
    (each : ∀ pair ∈ args.zip args', Finishes s logical pair.1 pair.2) :
    args'.map sort? = args.map sort? ∧ ∀ arg ∈ args', WellTyped s logical arg := by
  have finish := forall₂_of_zip sameLength each
  clear sameLength each
  induction finish with
  | nil => simp
  | cons head _ ih =>
    rw [map_cons, map_cons, head.sort, ih.1]
    exact ⟨rfl, forall_mem_cons.2 ⟨head.wellTyped, ih.2⟩⟩

theorem finishes_operation {operator : Operator} {note : Annotation}
    (hasType : note.type = some own) (isOpen : own.isConstant = false)
    (sameLength : args.length = args'.length)
    (each : ∀ pair ∈ args.zip args', Finishes s logical pair.1 pair.2)
    (accepts : operator.Accepts (args.map sort?) (note.type.bind sortOf))
    (rule : operatorType operator own args' = .ok t)
    (settled : settle (.function (some operator) args' word location note) t = .ok e') :
    Finishes s logical (.function (some operator) args word location note) e' := by
  rcases arguments_finish sameLength each with ⟨sameSorts, stillTyped⟩
  rw [hasType, Option.bind_some, ← sameSorts] at accepts
  have same : sortOf t = sortOf own := sortOf_operatorType rule accepts
  refine ⟨?_, ?_, .operation hasType isOpen sameLength
    (fun pair member => (each pair member).completes) rule settled⟩
  · rw [sort?_of_settle settled, same]
    exact (congrArg (Option.bind · sortOf) hasType).symm
  · rw [(settle_eq_ok.1 settled).2]
    rw [← same] at accepts
    exact .operation stillTyped accepts

theorem finishes_presence {r : FieldReference} {inner inner' note : Annotation} {last : Reference}
    {name : CanonicalName} {object : Object} (hasType : note.type = some own)
    (isOpen : own.isConstant = false)
    (argument : Finishes s logical (.fieldReference r inner) (.fieldReference r inner'))
    (ends : r.path.getLast? = some last) (named : last.Names s name object)
    (conditional : object.condition? = some other) (condition : Completes s before other)
    (otherType : other.type = some t) (conditionSort : sort? other = some .boolean)
    (sort : note.type.bind sortOf = some .boolean)
    (settled : settle (.function (some .presence) [.fieldReference r inner'] word location note)
      (takeOver own t) = .ok e') :
    Finishes s logical (.function (some .presence) [.fieldReference r inner] word location note)
      e' := by
  have ownSort : sortOf own = some .boolean := by
    rw [← sort, hasType, Option.bind_some]
  have same : sortOf (takeOver own t) = sortOf own :=
    sortOf_takeOver (((sort?_of_type otherType).symm.trans conditionSort).trans ownSort.symm)
  refine ⟨?_, ?_, .presence hasType isOpen (by rfl) ?_ (by rfl) ends named conditional condition
    otherType settled⟩
  · rw [sort?_of_settle settled, same, ownSort]
    exact sort.symm
  · rw [(settle_eq_ok.1 settled).2]
    exact .presence argument.wellTyped ends named conditional conditionSort (same.trans ownSort)
  · rintro _ (_ | ⟨_, ⟨⟩⟩)
    exact argument.completes

end Finishes

theorem Settles.fieldReference {r : FieldReference} {note : Annotation}
    (settles : Settles p s (.fieldReference r note) e') : ∃ note', e' = .fieldReference r note' := by
  cases settles with
  | kept => exact ⟨note, rfl⟩
  | opened _ _ _ _ _ _ _ _ settled => exact ⟨_, (settle_eq_ok.1 settled).2⟩

/-- A well-typed expression of which nothing was known is completed when it is settled. -/
theorem Settles.finishes (prepared : Prepared p) (evolves : Evolves related p s)
    (settles : Settles p s e e') (wellTyped : WellTyped p logical e) (untouched : Untouched e) :
    Finishes s logical e e' := by
  induction settles generalizing logical with
  | kept hasType isConstant =>
    rw [untouched.isOpen hasType] at isConstant
    cases isConstant
  | @opened e e' before own t args source hasType isOpen sameLength each sourceIs begins target read
      settled ih inTarget =>
    have plain (typed : WellTyped s logical e) (same : withArguments args e = e)
        (rule : (do return .known (← plainType own e)) = Except.ok source) :
        Finishes s logical e e' := by
      rcases bind_eq_ok.1 rule with ⟨_, isRule, isKnown⟩
      cases isKnown
      cases read
      rw [same] at settled
      exact finishes_plain typed hasType isOpen isRule settled
    -- the expression that the type is taken from is completed
    have target {name : CanonicalName} {address : Address} {object : Object} {slot : BoundSource}
        {step : Step} (found : p.find name = .ok ⟨address, object⟩)
        (leads : ∀ object', object'.skeleton = object.skeleton →
          s.find name = .ok ⟨address, object'⟩ →
          sourceOf s own (withArguments args e) = .ok slot)
        (isAddress : slot.address? = some (address ++ [step])) :
        source = slot ∧ object.node.top? [step] = some before ∧ ∃ object' c,
          s.find name = .ok ⟨address, object'⟩ ∧ ObjectEvolves related object object' ∧
          object'.node.top? [step] = some c ∧ s.expressionAt? (address ++ [step]) = some c ∧
          Finishes s none before c := by
      rcases evolves.find found with ⟨object', found', same⟩
      cases sourceIs.symm.trans (leads object' same.skeleton found')
      have isFirst := begins _ isAddress
      rcases exists_of_rel (evolves.expressions _) isFirst with ⟨c, there, _⟩
      rw [← expressionAt?_append found]
      refine ⟨rfl, isFirst, object', c, found', same, ?_, there, inTarget _ c isAddress there
        (prepared.wellTyped _ before isFirst) (prepared.untouched _ before isFirst)⟩
      rw [← expressionAt?_append found', there]
    cases wellTyped with
    | number sort => exact plain (.number sort) rfl sourceIs
    | truth sort => exact plain (.truth sort) rfl sourceIs
    | logicalValue isWord given scalar => exact plain (.logicalValue isWord given scalar) rfl sourceIs
    | staticSize isWord sort => exact plain (.staticSize isWord sort) rfl sourceIs
    | isStaticallySized isWord sort => exact plain (.isStaticallySized isWord sort) rfl sourceIs
    | enumValue named hasValue valueSort sort =>
      rcases named with ⟨nameIs, address, found⟩
      rcases @target _ _ _ (.enumValue _) _ found (fun _ same found' =>
        (sourceOf_constant nameIs found').trans (constantSource_congr same)) rfl with
        ⟨rfl, isFirst, _, c, found', same, isNow, there, inner⟩
      rcases same.value hasValue with ⟨v', _, rfl, _, _⟩
      rw [Object.node, top?_value] at isFirst isNow
      cases hasValue.symm.trans isFirst
      simp only [readSource, bind_eq_ok, Failure.require_eq_ok, there, Option.some.injEq,
        exists_eq_left'] at read
      refine finishes_of_settle (.enumValue ⟨nameIs, address, found'⟩ isNow
        (inner.sort.trans valueSort) sort) rfl hasType settled ?_ (by rintro _ _ ⟨⟩)
        (.enumValue hasType isOpen ⟨nameIs, address, found'⟩ isNow inner.completes read settled)
      rcases enumValueType_eq_ok read with ⟨_, _, _, rfl⟩
      exact sort.symm.trans (sort?_of_type hasType)
    | fixed named isComputed sort isTyped =>
      rcases named with ⟨nameIs, address, found⟩
      rcases computed?_eq_some.1 isComputed with ⟨⟨f, rfl, isVirtual⟩, isRead⟩
      rcases target found (fun _ same found' => (sourceOf_constant nameIs found').trans
        ((constantSource_congr same).trans (constantSource_virtual isVirtual))) rfl with
        ⟨rfl, isFirst, _, c, found', same, isNow, there, inner⟩
      cases isRead.symm.trans isFirst
      rcases readSource_expression there read with ⟨_, hasType', rfl⟩
      have isComputed' := same.computed?_of_top? isComputed isNow
      exact finishes_refers (.fixed ⟨nameIs, address, found'⟩ isComputed'
        (sort.trans inner.sort.symm) (inner.sort.symm ▸ isTyped)) hasType isOpen
        (.fixed ⟨nameIs, address, found'⟩ isComputed') inner.completes hasType'
        (inner.sort.trans sort.symm) settled
    | stored ends named isStored isTyped flag =>
      rcases named with ⟨nameIs, address, found⟩
      rcases evolves.find found with ⟨object', found', same⟩
      have isStored' := same.isStored isStored
      have run := (sourceOf_field ends nameIs found').symm.trans sourceIs
      rw [fieldSource_of_isStored isStored', map_eq_ok] at run
      rcases run with ⟨_, rule, rfl⟩
      cases read
      exact finishes_of_settle (.stored ends ⟨nameIs, address, found'⟩ isStored' isTyped
        (same.isFlag.symm ▸ flag)) rfl hasType settled (sortOf_storedType rule)
        (by rintro _ _ ⟨⟩)
        (.stored hasType isOpen ends ⟨nameIs, address, found'⟩ isStored' rule settled)
    | computed ends named isComputed sort isTyped =>
      rcases named with ⟨nameIs, address, found⟩
      rcases computed?_eq_some.1 isComputed with ⟨⟨f, rfl, isVirtual⟩, isRead⟩
      rcases target found (fun _ same found' => (sourceOf_field ends nameIs found').trans
        (fieldSource_virtual isVirtual same)) rfl with
        ⟨rfl, isFirst, _, c, found', same, isNow, there, inner⟩
      cases isRead.symm.trans isFirst
      rcases readSource_expression there read with ⟨_, hasType', rfl⟩
      have isComputed' := same.computed?_of_top? isComputed isNow
      exact finishes_refers (.computed ends ⟨nameIs, address, found'⟩ isComputed'
        (sort.trans inner.sort.symm) (inner.sort.symm ▸ isTyped)) hasType isOpen
        (.field ends ⟨nameIs, address, found'⟩ isComputed') inner.completes hasType'
        (inner.sort.trans sort.symm) settled
    | operation typed accepts =>
      have each := fun pair member => ih pair member (typed _ (of_mem_zip member).1)
        (untouched.arguments _ (of_mem_zip member).1)
      rcases sourceOf_operator (by rintro rfl; exact accepts) sourceIs with ⟨_, rule, rfl⟩
      cases read
      exact finishes_operation hasType isOpen sameLength each accepts rule settled
    | @presence r inner _ _ _ _ _ _ _ typed ends named conditional conditionSort sort =>
      rcases args with _ | ⟨arg, _ | _⟩
      · cases sameLength
      · have argument := ih (_, arg) (mem_singleton_self _) typed
          (untouched.arguments _ (by simp [arguments]))
        rcases (each _ (mem_singleton_self _)).fieldReference with ⟨_, isField⟩
        cases isField
        rcases named with ⟨nameIs, address, found⟩
        rcases condition?_eq_some.1 conditional with ⟨⟨f, rfl⟩, isCondition⟩
        rcases @target _ _ _ (.expression _) _ found (fun _ same found' =>
          (sourceOf_presence ends nameIs found').trans (presenceOf_congr same)) rfl with
          ⟨rfl, isFirst, _, c, found', same, isNow, there, inner⟩
        cases isCondition.symm.trans isFirst
        rcases readSource_expression there read with ⟨_, hasType', rfl⟩
        rcases field_of_skeleton same.skeleton with ⟨f', rfl, _⟩
        exact finishes_presence hasType isOpen argument ends ⟨nameIs, address, found'⟩
          (condition?_eq_some.2 ⟨⟨f', rfl⟩, isNow⟩) inner.completes hasType'
          (inner.sort.trans conditionSort) sort settled
      · cases sameLength

/-! ## Programs whose bounds are being computed -/

theorem Prepared.finishes {a : Address} (prepared : Prepared p) (evolves : Evolves related p s)
    (begins : p.expressionAt? a = some e) (settles : Settles p s e e') : Finishes s none e e' :=
  settles.finishes prepared evolves (prepared.wellTyped a e begins)
    (prepared.untouched a e begins)

theorem Refines.sorts (prepared : Prepared p) (refines : Refines p s) :
    Evolves (fun e e' => sort? e' = sort? e) p s where
  skeleton := refines.evolves.skeleton
  expressions := fun a => by
    have rel := refines.evolves.expressions a
    cases begins : p.expressionAt? a with
    | none =>
      rw [eq_none_of_rel rel begins]
      exact .none
    | some before =>
      rcases exists_of_rel rel begins with ⟨c, there, rfl | settles⟩
      · rw [there]
        exact .some rfl
      · rw [there]
        exact .some (prepared.finishes refines.evolves begins settles).sort

theorem Refines.wellTyped_iff (prepared : Prepared p) (refines : Refines p s) :
    WellTyped s logical e ↔ WellTyped p logical e := by
  have sorts := refines.sorts prepared
  refine ⟨Evolves.wellTyped ⟨sorts.skeleton.symm, fun a => ?_⟩, sorts.wellTyped⟩
  have rel := sorts.expressions a
  generalize p.expressionAt? a = part, s.expressionAt? a = part' at rel ⊢
  cases rel with
  | some same => exact .some same.symm
  | none => exact .none

theorem Refines.allTyped (prepared : Prepared p) (refines : Refines p s) : AllTyped s := by
  intro a c there
  rcases exists_before_of_rel (refines.evolves.expressions a) there with
    ⟨before, begins, rfl | settles⟩
  · exact (refines.wellTyped_iff prepared).2 (prepared.wellTyped a c begins)
  · exact (prepared.finishes refines.evolves begins settles).wellTyped

/-- A program in which the bounds of some expressions have been computed, one after the other. -/
inductive Underway : Program → Prop
  | start {p : Program} (typed : AllTyped p)
      (untouched : ∀ a e, p.expressionAt? a = some e → Untouched e) : Underway p
  | step {p p' : Program} {depth : Nat} {a : Address} {e e' : Expression} (before : Underway p)
      (there : p.expressionAt? a = some e) (run : (computeAt depth a).run p = .ok (e', p')) :
      Underway p'

theorem Underway.refines (underway : Underway s) : ∃ p, Prepared p ∧ Refines p s := by
  induction underway with
  | start typed untouched => exact ⟨_, ⟨typed, untouched⟩, .refl _⟩
  | step _ there run ih =>
    rcases ih with ⟨p, prepared, refines⟩
    exact ⟨p, prepared, (atDepth p _ _ _ _ _ _ refines there run).1⟩

/-- Computing the bounds of a well-typed expression, of which nothing is known or that stands in the
program, completes it and changes nothing but types. -/
theorem compute_completes {depth : Nat} (underway : Underway s) (wellTyped : WellTyped s logical e)
    (isFresh : Untouched e ∨ ∃ a, s.expressionAt? a = some e)
    (run : (compute depth e).run s = .ok (e', s')) :
    untyped e' = untyped e ∧ Retyped s s' ∧ AllTyped s' ∧ WellTyped s' logical e' ∧
      Complete s' e' := by
  rcases underway.refines with ⟨p, prepared, refines⟩
  rcases computes (atDepth p depth) e s s' e' refines run with ⟨refines', keeps, settles, _⟩
  have retyped : Retyped s s' := ⟨keeps.skeleton, fun a =>
    (refines'.retyped.expressions a).trans (refines.retyped.expressions a).symm⟩
  refine ⟨settles.untyped, retyped, refines'.allTyped prepared, ?_⟩
  have atFirst := (refines.wellTyped_iff prepared).1 wellTyped
  have ofUntouched (untouched : Untouched e) : WellTyped s' logical e' ∧ Complete s' e' := by
    have finishes := settles.finishes prepared refines'.evolves atFirst untouched
    exact ⟨finishes.wellTyped, e, finishes.completes⟩
  rcases isFresh with untouched | ⟨a, there⟩
  · exact ofUntouched untouched
  · rcases exists_before_of_rel (refines.evolves.expressions a) there with
      ⟨before, begins, rfl | grown⟩
    · exact ofUntouched (prepared.untouched a e begins)
    · -- it was settled before, so that nothing was left to compute
      have later := keeps.settles grown
      cases settles.unique later.again
      exact ⟨(refines'.wellTyped_iff prepared).2 atFirst, before,
        (prepared.finishes refines'.evolves begins later).completes⟩

end WellTyped

end BinaryLayout.Bounds
