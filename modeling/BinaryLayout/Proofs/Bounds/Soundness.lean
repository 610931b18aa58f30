import BinaryLayout.Proofs.Bounds.Underway
import BinaryLayout.Proofs.IR.Walk
import Mathlib

/-!
# Bounds are sound

What is known of an expression once its bounds are computed holds of its value, whatever the
physical fields and parameters hold: the value lies between the bounds and fits the congruence,
and it is the constant that the expression is said to have.

The proof is an induction on how the expression gets its value.  Each step looks at one rule by
which the expression got its type (`Settled`), and at what is known of the parts.
-/

namespace BinaryLayout.Bounds

open IR Typing Checked List

/-! ## How a complete expression got its type -/

/-- The rule by which an expression got its type, and the complete parts that the rule used. -/
inductive Settled (p : Program) : Expression → ExpressionType → Prop
  | plain {e : Expression} {own t : ExpressionType} (isOpen : own.isConstant = false)
      (rule : plainType own e = .ok t) : Settled p e t
  | stored {r : FieldReference} {note : Annotation} {last : Reference} {name : CanonicalName}
      {object : Object} {own t : ExpressionType} (isOpen : own.isConstant = false)
      (ends : r.path.getLast? = some last) (named : last.Names p name object)
      (isStored : object.isStored) (rule : storedType p own last object = .ok t) :
      Settled p (.fieldReference r note) t
  | refers {e other : Expression} {own t : ExpressionType} (refers : Refers p e other)
      (complete : Complete p other) (otherType : other.type = some t) :
      Settled p e (takeOver own t)
  | enumValue {r : Reference} {note : Annotation} {name : CanonicalName} {v : EnumValue}
      {other : Expression} {own t : ExpressionType} (named : r.Names p name (.enumValue v))
      (hasValue : v.value = some other) (complete : Complete p other)
      (rule : enumValueType own other = .ok t) : Settled p (.constantReference r note) t
  | operation {operator : Operator} {args : List Expression} {word : Option Word}
      {location : Option Location} {note : Annotation} {own t : ExpressionType}
      (isOpen : own.isConstant = false) (arguments : ∀ arg ∈ args, Complete p arg)
      (rule : operatorType operator own args = .ok t) :
      Settled p (.function (some operator) args word location note) t
  | presence {args : List Expression} {r : FieldReference} {inner note : Annotation}
      {word : Option Word} {location : Option Location} {last : Reference} {name : CanonicalName}
      {object : Object} {other : Expression} {own t : ExpressionType}
      (isField : args[0]? = some (.fieldReference r inner)) (ends : r.path.getLast? = some last)
      (named : last.Names p name object) (conditional : object.condition? = some other)
      (complete : Complete p other) (otherType : other.type = some t) :
      Settled p (.function (some .presence) args word location note) (takeOver own t)

theorem settled_of_settle {p : Program} {e e' : Expression} {t : ExpressionType}
    (run : settle e t = .ok e') (settled : Settled p (e.withType (some t)) t) :
    ∃ t, e'.type = some t ∧ Settled p e' t ∧
      ∀ bounds, t = .integer bounds → checkConsistent bounds = .ok () := by
  rcases settle_eq_ok.1 run with ⟨consistent, rfl⟩
  exact ⟨t, Expression.type_withType .., settled, consistent⟩

theorem Complete.settled {p : Program} {e : Expression} (complete : Complete p e) :
    ∃ t, e.type = some t ∧ Settled p e t ∧
      ∀ bounds, t = .integer bounds → checkConsistent bounds = .ok () := by
  rcases complete with ⟨_, completes⟩
  induction completes with
  | kept _ _ _ ih => exact ih
  | plain _ isOpen rule settled =>
    exact settled_of_settle settled (.plain isOpen ((plainType_withType ..).trans rule))
  | stored _ isOpen ends named isStored rule settled =>
    exact settled_of_settle settled (.stored isOpen ends named isStored rule)
  | refers _ _ refers inner otherType settled =>
    exact settled_of_settle settled (.refers (refers.withType _) ⟨_, inner⟩ otherType)
  | enumValue _ _ named hasValue inner rule settled =>
    exact settled_of_settle settled (.enumValue named hasValue ⟨_, inner⟩ rule)
  | operation _ isOpen sameLength arguments rule settled =>
    refine settled_of_settle settled (.operation isOpen (fun arg member => ?_) rule)
    exact (exists_left_of_mem (forall₂_of_zip sameLength arguments) member).imp fun _ => And.right
  | presence _ _ _ _ isField ends named conditional condition otherType settled =>
    exact settled_of_settle settled
      (.presence isField ends named conditional ⟨_, condition⟩ otherType)

/-! ## Operators -/

/-- What is known of an expression holds of a value, and a constant that it is said to have is
this value. -/
structure Sound (e : Expression) (v : Constant) : Prop where
  known : Known e v
  constant : ∀ c, e.constantValue? = .ok (some c) → c = v

theorem soleValue_eq {t : ExpressionType} {c v : Constant}
    (sole : ExpressionType.soleValue (some t) = .ok c) (within : Within t v) : c = v := by
  cases t with
  | integer bounds =>
    simp only [ExpressionType.soleValue, bind_eq_ok, Failure.ensure_eq_ok, beq_iff_eq,
      pure_eq_ok] at sole
    rcases sole with ⟨_, infinite, n, value, rfl⟩
    rcases within_integer within with ⟨_, rfl, bounded⟩
    have known := bounded.eq_of_infinite infinite
    cases isKnown : bounds.modularValue with
    | none =>
      rw [isKnown] at known
      cases known
    | some =>
      rw [isKnown] at known value
      exact congrArg Constant.int (Except.ok.inj (value.symm.trans known))
  | boolean =>
    simp only [ExpressionType.soleValue] at sole
    split at sole
    · rename_i b isKnown
      cases sole
      rcases within_boolean within with ⟨_, rfl, holds⟩
      rw [holds b isKnown]
    · cases sole
  | enumeration =>
    simp only [ExpressionType.soleValue] at sole
    split at sole
    · rename_i text isKnown
      simp only [bind_eq_ok, pure_eq_ok] at sole
      rcases sole with ⟨n, value, rfl⟩
      cases v with
      | bool b => exact within.elim
      | int => exact congrArg Constant.int (Except.ok.inj (value.symm.trans
          (within text isKnown)))
    · cases sole
  | _ => cases sole

section Operators

variable {operator : Operator} {own t : ExpressionType} {args : List Expression}
  {values : List Constant} {v : Constant}

variable {word : Option Word} {location : Option Location} {note : Annotation} {c : Constant}

theorem two_of_apply {f : Int → Int → Constant} (isBinary : operator.binary? = some f)
    (applied : operator.apply values = some v) : ∃ a b, values = [a, b] := by
  unfold Operator.apply at applied
  split at applied
  case h_12 => cases isBinary
  case h_13 => cases applied
  all_goals exact ⟨_, _, rfl⟩

theorem arithmetic_known {f : Int → Int → Int}
    (isBinary : operator.binary? = some fun a b => .int (f a b))
    (sound : List.Forall₂ Sound args values) (applied : operator.apply values = some v) :
    ∃ left right x y, args = [left, right] ∧ Known left (.int x) ∧ Known right (.int y) ∧
      v = .int (f x y) := by
  rcases two_of_apply isBinary applied with ⟨a, b, rfl⟩
  rcases sound with _ | ⟨left, _ | ⟨right, _ | _⟩⟩
  have same := (binary?_apply isBinary applied).symm
  cases operator with
  | addition | subtraction | multiplication =>
    rcases a with x | x <;> rcases b with y | y <;> cases applied
    exact ⟨_, _, x, y, rfl, left.known, right.known, same⟩
  | equality | inequality | less | lessOrEqual | greater | greaterOrEqual =>
    cases congrFun (congrFun (Option.some.inj isBinary) 0) 0
  | _ => cases isBinary

theorem comparison_sound {f : Int → Int → Bool}
    (isBinary : operator.binary? = some fun a b => .bool (f a b))
    (rule : comparison operator own args = .ok t) (isOpen : own.isConstant = false)
    (sort : sortOf t = some .boolean) (sound : List.Forall₂ Sound args values)
    (applied : operator.apply values = some v) : Within t v := by
  rcases two_of_apply isBinary applied with ⟨a, b, rfl⟩
  obtain rfl := binary?_apply isBinary applied
  refine comparison_within rule isOpen sort ?_
  rintro left right c d value rfl leftConstant rightConstant compared
  rcases sound with _ | ⟨leftSound, _ | ⟨rightSound, _ | _⟩⟩
  cases leftSound.constant c leftConstant
  cases rightSound.constant d rightConstant
  exact (Constant.bool.inj (compareConstants_apply compared applied)).symm

theorem operatorType_within (rule : operatorType operator own args = .ok t)
    (isOpen : own.isConstant = false) (sound : List.Forall₂ Sound args values)
    (applied : operator.apply values = some v)
    (accepts : operator.Accepts (args.map sort?) (sortOf t)) : Within t v := by
  cases operator with
  | addition | subtraction =>
    rcases arithmetic_known rfl sound applied with ⟨left, right, x, y, rfl, known, known', rfl⟩
    exact additive_within rule known known'
  | multiplication =>
    rcases arithmetic_known rfl sound applied with ⟨left, right, x, y, rfl, known, known', rfl⟩
    exact multiplicative_within rule known known'
  | equality | inequality | less | lessOrEqual | greater | greaterOrEqual =>
    exact comparison_sound rfl rule isOpen accepts.2 sound applied
  | maximum =>
    rcases values with _ | ⟨_ | _, _⟩
    · cases applied
    · cases applied
    · rcases Option.map_eq_some_iff.1 applied with ⟨m, _, rfl⟩
      exact largest_within rule (sound.imp fun _ _ s => s.known) applied
  | _ => cases applied

/-- The constant value of an operator that needs the values of all its arguments is computed from
their constant values. -/
theorem constants_of_constant (whole : operator ∉ [.unknown, .and, .or, .choice])
    (constant : (Expression.function (some operator) args word location note).constantValue? =
      .ok (some c)) :
    ∃ constants, List.Forall₂ (fun arg c => arg.constantValue? = .ok (some c)) args constants ∧
      operator.evaluate constants = .ok c := by
  simp only [Expression.constantValue?, Expression.constant?, bind_eq_ok,
    constantsOf_eq_ok, Option.getD_some] at constant
  rcases constant with ⟨constants, each, constant⟩
  have evaluated : none ∉ constants ∧ operator.evaluate (constants.filterMap id) = .ok c := by
    cases operator with
    | unknown | and | or | choice => exact (whole (by decide)).elim
    | _ =>
      simp only [Operator.constant?, contains_eq_mem, decide_eq_true_eq] at constant
      split at constant
      · cases constant
      · simp only [bind_eq_ok, pure_eq_ok, Option.some.injEq] at constant
        rcases constant with ⟨_, evaluated, rfl⟩
        exact ⟨by assumption, evaluated⟩
  rcases evaluated with ⟨complete, evaluated⟩
  refine ⟨constants.filterMap id, ?_, evaluated⟩
  clear evaluated constant
  induction each with
  | nil => exact .nil
  | @cons _ c _ _ head _ ih =>
    rw [mem_cons, not_or] at complete
    cases c with
    | none => exact (complete.1 rfl).elim
    | some c => exact .cons head (ih complete.2)

theorem constants_eq {constants : List Constant} (sound : List.Forall₂ Sound args values)
    (each : List.Forall₂ (fun arg c => arg.constantValue? = .ok (some c)) args constants) :
    constants = values := by
  induction sound generalizing constants with
  | nil =>
    cases each
    rfl
  | cons head tail ih =>
    rcases each with _ | ⟨headConstant, tailConstants⟩
    rw [head.constant _ headConstant, ih tailConstants]

theorem operation_constant (sound : List.Forall₂ Sound args values)
    (applied : operator.apply values = some v)
    (constant : (Expression.function (some operator) args word location note).constantValue? =
      .ok (some c)) : c = v := by
  have whole : operator ∉ [.unknown, .and, .or, .choice] := by
    intro member
    simp only [mem_cons, not_mem_nil, or_false] at member
    rcases member with rfl | rfl | rfl | rfl <;> cases applied
  rcases constants_of_constant whole constant with ⟨_, each, evaluated⟩
  rw [constants_eq sound each] at evaluated
  exact evaluate_apply evaluated applied

end Operators

/-! ## Conjunctions, disjunctions and choices -/

section Logical

variable (neutral : Bool) {own t : ExpressionType} {args : List Expression} {word : Option Word}
  {location : Option Location} {note : Annotation} {c : Constant}

/-- The operator whose result is the neutral truth value unless an operand is another. -/
def logical : Operator :=
  if neutral then .and else .or

theorem logical_eq_ok {a b : Constant} {value : Bool}
    (compared : compareConstants (logical neutral) a b = .ok value) :
    ∃ x y, a = .bool x ∧ b = .bool y ∧ value = if x = neutral then y else !neutral := by
  cases neutral <;> rcases a with x | x <;> rcases b with y | y <;> cases compared <;>
    exact ⟨x, y, rfl, rfl, by cases x <;> rfl⟩

/-- The constant value of a conjunction or disjunction is decided by an operand, or all operands
are known and none decides it. -/
theorem logical_constant
    (constant : (Expression.function (some (logical neutral)) args word location
      note).constantValue? = .ok (some c)) :
    (c = .bool !neutral ∧ ∃ arg ∈ args, arg.constantValue? = .ok (some (.bool !neutral))) ∨
      (c = .bool neutral ∧ ∀ arg ∈ args, ∃ c, arg.constantValue? = .ok (some c) ∧
        c ≠ .bool !neutral) := by
  simp only [Expression.constantValue?, Expression.constant?, bind_eq_ok,
    constantsOf_eq_ok, Option.getD_some] at constant
  rcases constant with ⟨constants, each, constant⟩
  have rule : (logical neutral).constant? constants =
      if some (.bool !neutral) ∈ constants then .ok (some (.bool !neutral))
      else if none ∈ constants then .ok none else .ok (some (.bool neutral)) := by
    cases neutral <;> simp only [logical, Operator.constant?, contains_eq_mem,
      decide_eq_true_eq] <;> rfl
  rw [rule] at constant
  have decided : (some (.bool !neutral) ∈ constants ∧ c = .bool !neutral) ∨
      (some (.bool !neutral) ∉ constants ∧ none ∉ constants ∧ c = .bool neutral) := by
    split at constant
    · cases constant
      exact .inl ⟨by assumption, rfl⟩
    · split at constant
      · cases constant
      · cases constant
        exact .inr ⟨by assumption, by assumption, rfl⟩
  rcases decided with ⟨decides, rfl⟩ | ⟨undecided, complete, rfl⟩
  · rcases exists_left_of_mem each decides with ⟨arg, member, isConstant⟩
    exact .inl ⟨rfl, arg, member, isConstant⟩
  · refine .inr ⟨rfl, fun arg member => ?_⟩
    rcases exists_right_of_mem each member with ⟨_ | c, inConstants, isConstant⟩
    · exact (complete inConstants).elim
    · refine ⟨c, isConstant, ?_⟩
      rintro rfl
      exact undecided inConstants

variable (rule : comparison (logical neutral) own args = .ok t) (isOpen : own.isConstant = false)
  (sort : sortOf t = some .boolean)

include rule isOpen sort

theorem all_within (sound : ∀ arg ∈ args, Sound arg (.bool neutral)) :
    Within t (.bool neutral) := by
  refine comparison_within rule isOpen sort ?_
  rintro left right a b value rfl leftConstant rightConstant compared
  cases (sound left (by simp)).constant a leftConstant
  cases (sound right (by simp)).constant b rightConstant
  rcases logical_eq_ok neutral compared with ⟨x, y, same, same', rfl⟩
  cases same
  cases same'
  simp

theorem one_within {arg : Expression} (member : arg ∈ args) (sound : Sound arg (.bool !neutral)) :
    Within t (.bool !neutral) := by
  refine comparison_within rule isOpen sort ?_
  rintro left right a b value rfl leftConstant rightConstant compared
  rcases logical_eq_ok neutral compared with ⟨x, y, rfl, rfl, rfl⟩
  rcases mem_pair.1 member with rfl | rfl
  · cases sound.constant _ leftConstant
    simp
  · cases sound.constant _ rightConstant
    simp

theorem all_sound (hasType : note.type = some t) (sound : ∀ arg ∈ args, Sound arg (.bool neutral)) :
    Sound (.function (some (logical neutral)) args word location note) (.bool neutral) := by
  refine ⟨⟨t, hasType, all_within neutral rule isOpen sort sound⟩, fun c constant => ?_⟩
  rcases logical_constant neutral constant with ⟨rfl, arg, member, isConstant⟩ | ⟨rfl, _⟩
  · exact (sound arg member).constant _ isConstant
  · rfl

theorem one_sound {arg : Expression} (hasType : note.type = some t) (member : arg ∈ args)
    (sound : Sound arg (.bool !neutral)) :
    Sound (.function (some (logical neutral)) args word location note) (.bool !neutral) := by
  refine ⟨⟨t, hasType, one_within neutral rule isOpen sort member sound⟩, fun c constant => ?_⟩
  rcases logical_constant neutral constant with ⟨rfl, _⟩ | ⟨rfl, all⟩
  · rfl
  · rcases all arg member with ⟨c, isConstant, undecided⟩
    exact (undecided (sound.constant c isConstant)).elim

end Logical

theorem choice_sound {own t : ExpressionType} {condition ifTrue ifFalse : Expression}
    {word : Option Word} {location : Option Location} {note : Annotation} {decided : Bool}
    {v : Constant} (rule : choice own [condition, ifTrue, ifFalse] = .ok t)
    (isOpen : own.isConstant = false) (hasType : note.type = some t)
    (leftSort : sort? ifTrue = sortOf t) (rightSort : sort? ifFalse = sortOf t)
    (decides : Sound condition (.bool decided))
    (chosen : Sound (if decided then ifTrue else ifFalse) v) :
    Sound (.function (some .choice) [condition, ifTrue, ifFalse] word location note) v := by
  refine ⟨⟨t, hasType, choice_within rule decides.known chosen.known isOpen leftSort rightSort⟩,
    fun c constant => ?_⟩
  simp only [Expression.constantValue?, Expression.constant?, bind_eq_ok,
    constantsOf_eq_ok, Option.getD_some] at constant
  rcases constant with ⟨_, _ | ⟨ofCondition, _ | ⟨ofTrue, _ | ⟨ofFalse, _ | _⟩⟩⟩, constant⟩
  rename_i first second third
  simp only [Operator.constant?, Failure.element_eq_ok, bind_eq_ok,
    getElem?_cons_zero, Option.some.injEq] at constant
  rcases constant with ⟨_, rfl, constant⟩
  cases first with
  | none => cases constant
  | some value =>
    cases decides.constant value ofCondition
    cases decided with
    | true =>
      cases constant
      exact chosen.constant c ofTrue
    | false =>
      cases constant
      exact chosen.constant c ofFalse

/-! ## Every expression -/

section Expressions

variable {p : Program} {ρ : Valuation} {r : Reference} {name : CanonicalName} {object : Object}
  {e other : Expression} {v : Constant} {logical : Option ExpressionType}

variable {t : ExpressionType} {numeral : Numeral} {i : Int} {note : Annotation}
  {path : FieldReference} {last : Reference} {word : Option Word} {location : Option Location}

theorem AllTyped.slot (typed : AllTyped p) (named : r.Names p name object) {rest : Address}
    (there : object.node.top? rest = some e) : WellTyped p none e := by
  rcases named with ⟨_, address, found⟩
  exact typed (address ++ rest) e ((expressionAt?_append found rest).trans there)

theorem AllTyped.computed (typed : AllTyped p) (named : r.Names p name object)
    (isComputed : object.computed? = some e) : WellTyped p none e := by
  cases object with
  | field f =>
    simp only [Object.computed?] at isComputed
    split at isComputed
    · exact typed.slot named ((top?_readTransform f).trans isComputed)
    · cases isComputed
  | _ => cases isComputed

theorem AllTyped.condition (typed : AllTyped p) (named : r.Names p name object)
    (conditional : object.condition? = some e) : WellTyped p none e := by
  cases object with
  | field f => exact typed.slot named ((top?_existenceCondition f).trans conditional)
  | _ => cases conditional

theorem known_takeOver {own : ExpressionType} (sound : Sound other v)
    (otherType : other.type = some t) : Within (takeOver own t) v := by
  rcases sound.known with ⟨_, again, within⟩
  cases otherType.symm.trans again
  cases t with
  | unset => exact within.elim
  | _ => exact within

theorem isEmpty_of_toInt (denotes : numeral.toInt = .ok i) : numeral.isEmpty = false := by
  cases numeral with
  | other =>
    rw [Numeral.isEmpty, Bool.eq_false_iff]
    intro isEmpty
    rw [String.isEmpty_iff.1 isEmpty] at denotes
    cases denotes
  | _ => rfl

theorem number_sound {n : NumericConstant} (written : n.value = some numeral)
    (denotes : numeral.toInt = .ok i) (complete : Complete p (.constant n note)) :
    Sound (.constant n note) (.int i) := by
  rcases complete.settled with ⟨t, hasType, settled, _⟩
  rcases settled with ⟨_, rule⟩ | _ | ⟨refers, _, _⟩
  · simp only [plainType, literalType, bind_eq_ok, pure_eq_ok] at rule
    rcases rule with ⟨_, _, rfl⟩
    refine ⟨⟨_, hasType, ?_⟩, fun c constant => ?_⟩
    · rw [written]
      exact singleton_bounded denotes
    · simp only [Expression.constantValue?, Expression.constant?, NumericConstant.toInt, written,
        isEmpty_of_toInt denotes, Bool.false_eq_true, if_false, bind_eq_ok,
        pure_eq_ok, Option.some.injEq] at constant
      rcases constant with ⟨_, again, rfl⟩
      exact congrArg Constant.int (Except.ok.inj (again.symm.trans denotes))
  · cases refers

theorem truth_sound {b : BooleanConstant} {value : Bool} (written : b.value = some value)
    (complete : Complete p (.booleanConstant b note)) :
    Sound (.booleanConstant b note) (.bool value) := by
  rcases complete.settled with ⟨t, hasType, settled, _⟩
  rcases settled with ⟨_, rule⟩ | _ | ⟨refers, _, _⟩
  · simp only [plainType, booleanType] at rule
    split at rule
    · cases rule
      refine ⟨⟨_, hasType, fun known isKnown => ?_⟩, fun c constant => ?_⟩
      · exact Option.some.inj (isKnown.symm.trans written)
      · simp only [Expression.constantValue?, Expression.constant?, written, Option.getD_some,
          pure_eq_ok, Option.some.injEq] at constant
        exact constant.symm
    · cases rule
  · cases refers

/-- A word of the language has no constant value. -/
theorem word_sound (hasType : note.type = some t) (within : Within t v) :
    Sound (.builtinReference r note) v := by
  refine ⟨⟨t, hasType, within⟩, fun c constant => ?_⟩
  simp only [Expression.constantValue?, Expression.constant?, bind_eq_ok,
    pure_eq_ok, lookup_nil, reduceCtorEq, and_false, exists_false] at constant

theorem word_type (complete : Complete p (.builtinReference r note)) :
    ∃ own t, own.isConstant = false ∧ builtinType own r = .ok t ∧ note.type = some t := by
  rcases complete.settled with ⟨t, hasType, settled, _⟩
  rcases settled with ⟨isOpen, rule⟩ | _ | ⟨refers, _, _⟩
  · exact ⟨_, t, isOpen, rule, hasType⟩
  · cases refers

theorem logicalValue_sound (isWord : r.IsWord "$logical_value")
    (wellTyped : WellTyped p logical (.builtinReference r note))
    (given : ∀ t, logical = some t → Within t ρ.logicalValue)
    (complete : Complete p (.builtinReference r note)) :
    Sound (.builtinReference r note) ρ.logicalValue := by
  rcases word_type complete with ⟨_, t, _, _, hasType⟩
  cases wellTyped with
  | logicalValue _ isGiven _ => exact word_sound hasType (given t (isGiven.symm.trans hasType))
  | staticSize other _ | isStaticallySized other _ =>
    exact absurd (isWord_unique isWord other) (by decide)

theorem staticSize_sound (isWord : r.IsWord "$static_size_in_bits")
    (complete : Complete p (.builtinReference r note)) (size : Nat) :
    Sound (.builtinReference r note) (.int size) := by
  rcases word_type complete with ⟨own, t, _, rule, hasType⟩
  rcases builtinType_eq_ok rule with ⟨_, _, rfl⟩ | ⟨other | other, _⟩
  · exact word_sound hasType ⟨atLeast_of_finite rfl (Int.natCast_nonneg size), trivial,
      Congruence.holds_of_dvd rfl rfl (one_dvd _)⟩
  · exact absurd (isWord_unique isWord other) (by decide)
  · exact absurd (isWord_unique isWord other) (by decide)

theorem isStaticallySized_sound (isWord : r.IsWord "$is_statically_sized")
    (wellTyped : WellTyped p logical (.builtinReference r note))
    (complete : Complete p (.builtinReference r note)) (b : Bool) :
    Sound (.builtinReference r note) (.bool b) := by
  rcases word_type complete with ⟨own, t, isOpen, rule, hasType⟩
  rcases builtinType_eq_ok rule with ⟨other, _, _⟩ | ⟨_, rfl⟩
  · exact absurd (isWord_unique isWord other) (by decide)
  · cases wellTyped with
    | logicalValue other _ _ | staticSize other _ =>
      exact absurd (isWord_unique isWord other) (by decide)
    | isStaticallySized _ sort =>
      have ownSort : sort? (.builtinReference r note) = sortOf t := sort?_of_type hasType
      exact word_sound hasType (within_of_open (ownSort.symm.trans sort) isOpen)

/-! ### References -/

theorem constantReference_sound (hasType : note.type = some t) (within : Within t v) :
    Sound (.constantReference r note) v := by
  refine ⟨⟨t, hasType, within⟩, fun c constant => ?_⟩
  simp only [Expression.constantValue?, Expression.constant?, bind_eq_ok,
    pure_eq_ok, Option.some.injEq, hasType] at constant
  rcases constant with ⟨_, sole, rfl⟩
  exact soleValue_eq sole within

theorem fieldReference_sound (hasType : note.type = some t) (within : Within t v) :
    Sound (.fieldReference path note) v := by
  refine ⟨⟨t, hasType, within⟩, fun c constant => ?_⟩
  simp only [Expression.constantValue?, Expression.constant?, pure_eq_ok, reduceCtorEq] at constant

theorem fixed_sound (typed : AllTyped p) (named : r.Names p name object)
    (isFixed : object.fixed? = some other)
    (wellTyped : WellTyped p logical (.constantReference r note))
    (complete : Complete p (.constantReference r note))
    (value : WellTyped p none other → Complete p other → Sound other v) :
    Sound (.constantReference r note) v := by
  rcases complete.settled with ⟨t, hasType, settled, _⟩
  rcases settled with ⟨_, rule⟩ | _ | ⟨refers, completeOther, otherType⟩ |
    ⟨named', hasValue, completeOther, rule⟩
  · cases rule
  · rcases refers with _ | ⟨named', isComputed⟩
    rcases names_unique named named' with ⟨_, rfl⟩
    cases object with
    | enumValue e => cases isComputed
    | _ =>
      cases isFixed.symm.trans isComputed
      exact constantReference_sound hasType (known_takeOver
        (value (typed.computed named isComputed) completeOther) otherType)
  · rcases names_unique named named' with ⟨_, rfl⟩
    cases isFixed.symm.trans hasValue
    have sound := value (typed.slot named ((top?_value _).trans hasValue)) completeOther
    rcases enumValueType_eq_ok rule with ⟨c, _, constant, rfl⟩
    cases sound.constant c constant
    cases wellTyped with
    | enumValue named' hasValue' valueSort _ =>
      rcases names_unique named named' with ⟨_, same⟩
      cases same
      cases hasValue.symm.trans hasValue'
      rcases sound.known with ⟨t, otherType, within⟩
      rw [sort?_of_type otherType] at valueSort
      cases t with
      | integer =>
        rcases within_integer within with ⟨_, rfl, _⟩
        refine constantReference_sound hasType fun text isText => ?_
        cases isText
        rfl
      | _ => cases valueSort
    | fixed named' isComputed _ _ =>
      rcases names_unique named named' with ⟨_, rfl⟩
      cases isComputed

theorem stored_sound (admissible : Admissible p ρ) (ends : path.path.getLast? = some last)
    (named : last.Names p name object) (isStored : object.isStored)
    (wellTyped : WellTyped p logical (.fieldReference path note))
    (complete : Complete p (.fieldReference path note)) (place : Place) :
    Sound (.fieldReference path note) (ρ.stored (place ++ [name])) := by
  rcases complete.settled with ⟨t, hasType, settled, consistent⟩
  have ownSort : sort? (.fieldReference path note) = sortOf t := sort?_of_type hasType
  rcases settled with ⟨_, rule⟩ | ⟨isOpen, ends', named', _, rule⟩ | ⟨refers, _, _⟩
  · cases rule
  · cases ends.symm.trans ends'
    rcases names_unique named named' with ⟨_, rfl⟩
    cases wellTyped with
    | stored ends' named' _ isTyped flag =>
      cases ends.symm.trans ends'
      rcases names_unique named named' with ⟨_, rfl⟩
      rw [ownSort] at isTyped flag
      exact fieldReference_sound hasType (storedType_within place admissible named isStored rule
        isOpen consistent isTyped flag)
    | computed ends' named' isComputed _ _ =>
      exact (not_refers_of_isStored note ends named isStored (.field ends' named' isComputed)).elim
  · exact (not_refers_of_isStored _ ends named isStored refers).elim

theorem computed_sound (typed : AllTyped p) (ends : path.path.getLast? = some last)
    (named : last.Names p name object) (isComputed : object.computed? = some other)
    (complete : Complete p (.fieldReference path note))
    (value : WellTyped p none other → Complete p other → Sound other v) :
    Sound (.fieldReference path note) v := by
  rcases complete.settled with ⟨t, hasType, settled, _⟩
  rcases settled with ⟨_, rule⟩ | ⟨_, ends', named', isStored, _⟩ |
    ⟨refers, completeOther, otherType⟩
  · cases rule
  · exact (not_refers_of_isStored note ends' named' isStored (.field ends named isComputed)).elim
  · cases refers.unique (.field ends named isComputed)
    exact fieldReference_sound hasType (known_takeOver
      (value (typed.computed named isComputed) completeOther) otherType)

/-! ### Operators and the whole induction -/

theorem settled_operation {operator : Operator} {args : List Expression}
    (other : operator ≠ .presence)
    (wellTyped : WellTyped p logical (.function (some operator) args word location note))
    (complete : Complete p (.function (some operator) args word location note)) :
    ∃ own t, own.isConstant = false ∧ note.type = some t ∧
      operatorType operator own args = .ok t ∧ operator.Accepts (args.map sort?) (sortOf t) ∧
      ∀ arg ∈ args, WellTyped p logical arg ∧ Complete p arg := by
  rcases complete.settled with ⟨t, hasType, settled, _⟩
  have ownSort : sort? (.function (some operator) args word location note) = sortOf t :=
    sort?_of_type hasType
  cases settled with
  | plain _ rule => cases rule
  | refers refers _ _ => cases refers
  | presence => exact (other rfl).elim
  | operation isOpen arguments rule =>
    cases wellTyped with
    | presence => exact (other rfl).elim
    | operation typedArguments accepts =>
      rw [ownSort] at accepts
      exact ⟨_, t, isOpen, hasType, rule, accepts, fun arg member =>
        ⟨typedArguments arg member, arguments arg member⟩⟩

theorem presence_sound {inner : Annotation} (typed : AllTyped p)
    (ends : path.path.getLast? = some last) (named : last.Names p name object)
    (conditional : object.condition? = some other) (complete : Complete p
      (.function (some .presence) [.fieldReference path inner] word location note))
    (value : WellTyped p none other → Complete p other → Sound other v) :
    Sound (.function (some .presence) [.fieldReference path inner] word location note) v := by
  rcases complete.settled with ⟨t, hasType, settled, _⟩
  cases settled with
  | plain _ rule => cases rule
  | refers refers _ _ => cases refers
  | operation _ _ rule => cases rule
  | presence isField ends' named' conditional' completeOther otherType =>
    cases isField
    cases ends.symm.trans ends'
    rcases names_unique named named' with ⟨_, rfl⟩
    cases conditional.symm.trans conditional'
    have sound := value (typed.condition named conditional) completeOther
    refine ⟨⟨_, hasType, known_takeOver sound otherType⟩, fun c constant => ?_⟩
    -- a field has no constant value, and so its presence has none
    simp [Expression.constantValue?, Expression.constant?, Expression.constantsOf,
      Operator.constant?, bind, Except.bind, pure, Except.pure] at constant

theorem bound_sound (isUpper : Bool) {arg : Expression} {bounds : IntegerType}
    (known : arg.type = some (.integer bounds))
    (bounded : (if isUpper then bounds.maximum else bounds.minimum) = some numeral)
    (denotes : numeral.toInt = .ok i)
    (wellTyped : WellTyped p logical
      (.function (some (if isUpper then .upperBound else .lowerBound)) [arg] word location note))
    (complete : Complete p
      (.function (some (if isUpper then .upperBound else .lowerBound)) [arg] word location note)) :
    Sound (.function (some (if isUpper then .upperBound else .lowerBound)) [arg] word location
      note) (.int i) := by
  have other : (if isUpper then Operator.upperBound else .lowerBound) ≠ .presence := by
    cases isUpper <;> decide
  rcases settled_operation other wellTyped complete with ⟨own, t, _, hasType, rule, _, _⟩
  have isBound : boundFunction isUpper own [arg] = .ok t := by
    cases isUpper <;> exact rule
  rcases boundFunction_eq_ok isBound with ⟨_, again, rfl⟩
  cases known.symm.trans again
  refine ⟨⟨_, hasType, ?_⟩, fun c constant => ?_⟩
  · rw [bounded]
    exact singleton_bounded denotes
  · -- a bound is not among the operators that have a constant value
    simp only [Expression.constantValue?, Expression.constant?, bind_eq_ok,
      Option.getD_some] at constant
    rcases constant with ⟨_, _, constant⟩
    cases isUpper <;> simp only [Bool.false_eq_true, if_true, if_false, Operator.constant?,
      Operator.evaluate, Operator.binary?] at constant <;> split at constant <;> cases constant

/-- What is known of a complete expression holds of its value. -/
theorem sound_of_evaluates {here : Place} (typed : AllTyped p) (admissible : Admissible p ρ)
    (evaluates : Evaluates p ρ here e v) (wellTyped : WellTyped p logical e)
    (given : ∀ t, logical = some t → Within t ρ.logicalValue) (complete : Complete p e) :
    Sound e v := by
  have fieldsGiven : ∀ t, none = some t → Within t ρ.logicalValue := by
    rintro _ ⟨⟩
  induction evaluates generalizing logical with
  | number written denotes => exact number_sound written denotes complete
  | truth written => exact truth_sound written complete
  | logicalValue isWord => exact logicalValue_sound isWord wellTyped given complete
  | staticSize isWord => exact staticSize_sound isWord complete ρ.staticSize
  | isStaticallySized isWord =>
    exact isStaticallySized_sound isWord wellTyped complete ρ.isStaticallySized
  | fixed named isFixed value ih =>
    exact fixed_sound typed named isFixed wellTyped complete fun isTyped =>
      ih isTyped fieldsGiven
  | stored reaches isStored =>
    rcases reaches.ends with ⟨last, ends, named⟩
    exact stored_sound admissible ends named isStored wellTyped complete _
  | computed reaches isComputed value ih =>
    rcases reaches.ends with ⟨last, ends, named⟩
    exact computed_sound typed ends named isComputed complete fun isTyped =>
      ih isTyped fieldsGiven
  | @operation _ operator args _ _ _ values _ sameLength _ applied ih =>
    have other : operator ≠ .presence := by
      rintro rfl
      cases applied
    rcases settled_operation other wellTyped complete with
      ⟨own, t, isOpen, hasType, rule, accepts, each⟩
    have sound : List.Forall₂ Sound args values := List.forall₂_iff_zip.2 ⟨sameLength,
      fun {arg value} member =>
        have ⟨isTyped, isComplete⟩ := each arg (of_mem_zip member).1
        ih (arg, value) member isTyped given isComplete⟩
    exact ⟨⟨t, hasType, operatorType_within rule isOpen sound applied accepts⟩,
      fun c => operation_constant sound applied⟩
  | allTrue _ ih =>
    rcases settled_operation (by decide) wellTyped complete with
      ⟨own, t, isOpen, hasType, rule, accepts, each⟩
    exact all_sound true rule isOpen accepts.2 hasType fun arg member =>
      ih arg member (each arg member).1 given (each arg member).2
  | oneFalse member _ ih =>
    rcases settled_operation (by decide) wellTyped complete with
      ⟨own, t, isOpen, hasType, rule, accepts, each⟩
    exact one_sound true rule isOpen accepts.2 hasType member
      (ih (each _ member).1 given (each _ member).2)
  | allFalse _ ih =>
    rcases settled_operation (by decide) wellTyped complete with
      ⟨own, t, isOpen, hasType, rule, accepts, each⟩
    exact all_sound false rule isOpen accepts.2 hasType fun arg member =>
      ih arg member (each arg member).1 given (each arg member).2
  | oneTrue member _ ih =>
    rcases settled_operation (by decide) wellTyped complete with
      ⟨own, t, isOpen, hasType, rule, accepts, each⟩
    exact one_sound false rule isOpen accepts.2 hasType member
      (ih (each _ member).1 given (each _ member).2)
  | @choice _ _ ifTrue ifFalse _ _ _ decided _ _ _ decidesInduction chosenInduction =>
    rcases settled_operation (by decide) wellTyped complete with
      ⟨own, t, isOpen, hasType, rule, ⟨_, sorts⟩, each⟩
    simp only [map_cons, map_nil, List.cons.injEq, and_true] at sorts
    have decidesSound := decidesInduction (each _ (by simp)).1 given (each _ (by simp)).2
    have isChosen := each (if decided then ifTrue else ifFalse) (by cases decided <;> simp)
    exact choice_sound rule isOpen hasType sorts.2.1 sorts.2.2 decidesSound
      (chosenInduction isChosen.1 given isChosen.2)
  | presence reaches conditional value ih =>
    rcases reaches.ends with ⟨last, ends, named⟩
    exact presence_sound typed ends named conditional complete fun isTyped =>
      ih isTyped fieldsGiven
  | upperBound known bounded denotes =>
    exact bound_sound true known bounded denotes wellTyped complete
  | lowerBound known bounded denotes =>
    exact bound_sound false known bounded denotes wellTyped complete

end Expressions

/-! ## Computed bounds -/

/-- The bounds that are computed for a well-typed expression hold of every value that it can
have.  Computing them changes nothing but types, in the expression and in the program, so that a
value of the result is a value of the expression. -/
theorem compute_sound {p p' : Program} {logical : Option ExpressionType} {e e' : Expression}
    {depth : Nat} (underway : Underway p) (wellTyped : WellTyped p logical e)
    (isFresh : Untouched e ∨ ∃ a, p.expressionAt? a = some e)
    (run : (compute depth e).run p = .ok (e', p')) :
    untyped e' = untyped e ∧ Retyped p p' ∧
      ∀ ρ here v, Admissible p' ρ → (∀ t, logical = some t → Within t ρ.logicalValue) →
        Evaluates p' ρ here e' v →
        (∃ t, e'.type = some t ∧ Within t v) ∧ ∀ c, e'.constantValue? = .ok (some c) → c = v := by
  rcases compute_completes underway wellTyped isFresh run with
    ⟨sameForm, retyped, allTyped, typed, complete⟩
  refine ⟨sameForm, retyped, fun ρ here v admissible given evaluates => ?_⟩
  have sound := sound_of_evaluates allTyped admissible evaluates typed given complete
  exact ⟨sound.known, sound.constant⟩

/-! ### A structure with one physical and one virtual field -/

namespace Sample

def memberName (member : String) : CanonicalName :=
  ⟨"sample", ["Frame", member]⟩

def member (name : String) (t : ExpressionType) : Expression :=
  .fieldReference { path := [{ canonicalName := some (memberName name) }] } { type := some t }

def number (n : Int) (t : ExpressionType) : Expression :=
  .constant { value := some (.int n) } { type := some t }

def always : Expression :=
  .booleanConstant { value := some true } { type := some (.boolean {}) }

/-- A byte that holds a number. -/
def counter : Field where
  name := some { name := some { text := some "counter" } }
  placement := some {
    start := some (number 0 (.integer {}))
    size := some (number 1 (.integer {})) }
  type := some (.atomic { reference := some { canonicalName := some ⟨"", ["UInt"]⟩ } } none none)
  existenceCondition := some always

/-- Ten more than the counter, with the types of the sum and its parts. -/
def sum (left right own : ExpressionType) : Expression :=
  .function (some .addition) [member "counter" left, number 10 right] none none { type := some own }

def shifted (left right own : ExpressionType) : Field where
  name := some { name := some { text := some "shifted" } }
  readTransform := some (sum left right own)
  existenceCondition := some always

def frame (left right own : ExpressionType) : Program where
  modules := [{
    fileName := some "sample"
    types := [{
      name := some { name := some { text := some "Frame" } }
      unit := some .byte
      body := .record { fields := [counter, shifted left right own] } }] }]

/-- The structure before anything is computed. -/
def untouched : Program :=
  frame (.integer {}) (.integer {}) (.integer {})

/-- What is known of the counter. -/
def ofByte : ExpressionType :=
  .integer ⟨some (.int 1), some (.int 0), some (.int 0), some (.int 255)⟩

/-- What is known of a number ten above the counter. -/
def ofSum : ExpressionType :=
  .integer ⟨some (.int 1), some (.int 0), some (.int 10), some (.int 265)⟩

/-- The structure once the bounds of the virtual field are computed. -/
def computed : Program :=
  frame ofByte (.integer (singleton (some (.int 10)))) ofSum

theorem expressions_untouched :
    (Node.program untouched).contents.filterMap Node.expression? =
      [number 0 (.integer {}), number 1 (.integer {}), always,
        sum (.integer {}) (.integer {}) (.integer {}), always] := by
  cbv

theorem fields_computed :
    (Node.program computed).contents.filterMap Node.field? =
      [counter, shifted ofByte (.integer (singleton (some (.int 10)))) ofSum] := by
  cbv

theorem parameters_computed :
    (Node.program computed).contents.filterMap Node.parameter? = [] := by
  cbv

theorem wellTyped_sum (logical : Option ExpressionType) :
    WellTyped untouched logical (sum (.integer {}) (.integer {}) (.integer {})) := by
  have names : (⟨some (memberName "counter"), [], none, none⟩ : Reference).Names untouched
      (memberName "counter") (.field counter) :=
    ⟨rfl, [⟨"module", 0⟩, ⟨"type", 0⟩, ⟨"structure", 0⟩, ⟨"field", 0⟩], by cbv⟩
  refine .operation (fun arg isArgument => ?_) ⟨rfl, rfl⟩
  rcases mem_pair.1 isArgument with rfl | rfl
  · exact .stored rfl names rfl rfl (by decide)
  · exact .number rfl

theorem wellTyped_shifted :
    WellTyped untouched none (member "shifted" (.integer {})) := by
  have names : (⟨some (memberName "shifted"), [], none, none⟩ : Reference).Names untouched
      (memberName "shifted") (.field (shifted (.integer {}) (.integer {}) (.integer {}))) :=
    ⟨rfl, [⟨"module", 0⟩, ⟨"type", 0⟩, ⟨"structure", 0⟩, ⟨"field", 1⟩], by cbv⟩
  exact .computed rfl names rfl rfl rfl

theorem underway_untouched : Underway untouched := by
  have each (a : Address) (e : Expression) (there : untouched.expressionAt? a = some e) :
      WellTyped untouched none e ∧ Untouched e := by
    have member := mem_filterMap.2 ⟨_, Node.mem_contents_of_inner? (Node.top?_eq_some.1 there),
      (rfl : Node.expression? (.expression e) = some e)⟩
    rw [expressions_untouched] at member
    simp only [mem_cons, not_mem_nil, or_false] at member
    rcases member with rfl | rfl | rfl | rfl | rfl
    · exact ⟨.number rfl, .leaf rfl (by decide)⟩
    · exact ⟨.number rfl, .leaf rfl (by decide)⟩
    · exact ⟨.truth rfl, .leaf rfl (by decide)⟩
    · refine ⟨wellTyped_sum none, .call (by decide) fun arg isArgument => ?_⟩
      rcases mem_pair.1 isArgument with rfl | rfl <;> exact .leaf rfl (by decide)
    · exact ⟨.truth rfl, .leaf rfl (by decide)⟩
  exact .start (fun a e there => (each a e there).1) fun a e there => (each a e there).2

theorem admissible_computed : Admissible computed zeroes := by
  refine admissible_zeroes (fun f member => ?_) parameters_computed
  rw [fields_computed, mem_pair] at member
  rcases member with rfl | rfl <;> rfl

theorem evaluates_shifted : Evaluates computed zeroes [] (member "shifted" ofSum) (.int 10) := by
  have names (name : String) (address : Address) (f : Field)
      (found : computed.find (memberName name) = .ok ⟨address, .field f⟩) :
      (⟨[⟨some (memberName name), [], none, none⟩], none⟩ : FieldReference).Reaches computed [] []
        (memberName name) (.field f) :=
    ⟨.here, _, rfl, rfl, address, found⟩
  refine .computed (names "shifted" [⟨"module", 0⟩, ⟨"type", 0⟩, ⟨"structure", 0⟩, ⟨"field", 1⟩]
    (shifted ofByte (.integer (singleton (some (.int 10)))) ofSum) (by cbv)) rfl ?_
  refine .operation (rfl : _ = [Constant.int 0, .int 10].length) (fun pair isPair => ?_) rfl
  rcases mem_pair.1 isPair with rfl | rfl
  · exact .stored (names "counter" [⟨"module", 0⟩, ⟨"type", 0⟩, ⟨"structure", 0⟩, ⟨"field", 0⟩]
      counter (by cbv)) rfl
  · exact .number rfl rfl

end Sample

/-- The bounds of a field that is ten above a byte hold of its value where the byte is zero. -/
theorem compute_sound_shifted :
    (compute 3 (Sample.member "shifted" (.integer {}))).run Sample.untouched =
        .ok (Sample.member "shifted" Sample.ofSum, Sample.computed) ∧
      Evaluates Sample.computed zeroes [] (Sample.member "shifted" Sample.ofSum) (.int 10) ∧
      Within Sample.ofSum (.int 10) := by
  have run : (compute 3 (Sample.member "shifted" (.integer {}))).run Sample.untouched =
      .ok (Sample.member "shifted" Sample.ofSum, Sample.computed) := by
    cbv
  rcases compute_sound Sample.underway_untouched Sample.wellTyped_shifted
    (.inl (.leaf rfl (by decide))) run with ⟨_, _, sound⟩
  rcases (sound zeroes [] (.int 10) Sample.admissible_computed (by rintro _ ⟨⟩)
    Sample.evaluates_shifted).1 with ⟨_, hasType, within⟩
  cases hasType
  exact ⟨run, Sample.evaluates_shifted, within⟩

end BinaryLayout.Bounds
