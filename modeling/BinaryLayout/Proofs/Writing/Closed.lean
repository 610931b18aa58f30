import BinaryLayout.Proofs.Bounds.Soundness

/-!
# Expressions that refer to no field

An expression that is made of constants has one value, whatever the fields hold.  Main statements:
its type says which value that is, and computing its bounds again changes neither it nor the
program.
-/

namespace BinaryLayout.Writing

open IR Typing Bounds Checked List Failure

/-- An expression that is made of constants. -/
inductive Closed : Expression → Prop
  | number {n : NumericConstant} {note : Annotation} : Closed (.constant n note)
  | truth {b : BooleanConstant} {note : Annotation} {value : Bool}
      (written : b.value = some value) : Closed (.booleanConstant b note)
  | fixed {r : Reference} {note : Annotation} {t : ExpressionType} (hasType : note.type = some t)
      (isConstant : t.isConstant = true) : Closed (.constantReference r note)
  | operation {operator : Operator} {args : List Expression} {word : Option Word}
      {location : Option Location} {note : Annotation} (other : operator ≠ .presence)
      (arguments : ∀ arg ∈ args, Closed arg) :
      Closed (.function (some operator) args word location note)

section Closed

variable {p : Program} {logical : Option ExpressionType} {e : Expression} {operator : Operator}
  {args : List Expression}

variable {bounds : IntegerType} {own t : ExpressionType}

/-! ## The constant -/

theorem isSome_constant? {values : List (Option Constant)} {c : Option Constant}
    (known : ∀ v ∈ values, v.isSome) (isOperator : operator ≠ .unknown)
    (run : operator.constant? values = .ok c) : c.isSome := by
  have noneMissing : values.contains none = false := by
    by_contra missing
    have member : none ∈ values := by simpa using missing
    cases known none member
  have plain (run : (do
      if values.contains none then return none
      else return some (← operator.evaluate (values.filterMap id)) : Checked _) = .ok c) :
      c.isSome := by
    rw [noneMissing, if_neg Bool.false_ne_true] at run
    rcases bind_eq_ok.1 run with ⟨_, _, same⟩
    cases pure_eq_ok.1 same
    rfl
  cases operator with
  | unknown => exact (isOperator rfl).elim
  | and | or =>
    simp only [Operator.constant?, noneMissing, Bool.false_eq_true, if_false] at run
    split at run <;> cases run <;> rfl
  | choice =>
    simp only [Operator.constant?, bind_eq_ok, element_eq_ok] at run
    rcases run with ⟨condition, first, run⟩
    cases condition with
    | none => cases known none (mem_of_getElem? first)
    | some =>
      rw [element_eq_ok] at run
      exact known c (mem_of_getElem? run)
  | _ => exact plain run

theorem isSome_constantValue? (closed : Closed e) (wellTyped : WellTyped p logical e) :
    ∀ c, e.constantValue? = .ok c → c.isSome := by
  induction closed with
  | number | fixed hasType isConstant =>
    intro c run
    simp only [Expression.constantValue?, Expression.constant?, bind_eq_ok, pure_eq_ok] at run
    rcases run with ⟨_, _, rfl⟩
    rfl
  | truth =>
    intro c run
    cases run
    rfl
  | @operation operator args _ _ _ other _ ih =>
    intro c run
    have typed : operator ≠ .unknown ∧ ∀ arg ∈ args, WellTyped p logical arg := by
      cases wellTyped with
      | operation typedArguments accepts =>
        refine ⟨?_, typedArguments⟩
        rintro rfl
        exact accepts
      | presence => exact (other rfl).elim
    simp only [Expression.constantValue?, Expression.constant?, bind_eq_ok,
      constantsOf_eq_ok, Option.getD_some] at run
    rcases run with ⟨_, pairs, run⟩
    refine isSome_constant? (fun v member => ?_) typed.1 run
    rcases exists_left_of_mem pairs member with ⟨arg, inArgs, known⟩
    exact ih arg inArgs (typed.2 arg inArgs) v known

/-! ## The type of a constant -/

/-- The type of an expression allows one value. -/
def HasOneValue (e : Expression) : Prop :=
  ∃ t, e.type = some t ∧ t.isConstant = true

theorem HasOneValue.boolean (one : HasOneValue e) (sort : sort? e = some .boolean) :
    ∃ value, e.type = some (.boolean ⟨some value⟩) := by
  rcases one with ⟨t, hasType, isConstant⟩
  rw [sort?_of_type hasType] at sort
  cases t with
  | boolean known =>
    rcases known with ⟨value⟩
    cases value with
    | none => cases isConstant
    | some value => exact ⟨value, hasType⟩
  | _ => cases sort

theorem consistent_of_complete (complete : Complete p e)
    (hasType : e.type = some (.integer bounds)) : checkConsistent bounds = .ok () := by
  rcases complete.settled with ⟨_, again, _, consistent⟩
  cases hasType.symm.trans again
  exact consistent bounds rfl

theorem HasOneValue.integer (one : HasOneValue e) (complete : Complete p e)
    (hasType : e.type = some (.integer bounds)) :
    bounds.modulus = some .infinity ∧ bounds.minimum = bounds.modularValue ∧
      bounds.maximum = bounds.modularValue := by
  rcases one with ⟨t, sameType, isConstant⟩
  cases hasType.symm.trans sameType
  have infinite : bounds.modulus = some .infinity := beq_iff_eq.1 isConstant
  exact ⟨infinite, ends_of_infinite (consistent_of_complete complete hasType) infinite⟩

theorem isSome_allConstant {constants : Option (List Constant)}
    (known : ∀ arg ∈ args, ∀ c, arg.constantValue? = .ok c → c.isSome)
    (run : allConstant args = .ok constants) : constants.isSome := by
  induction args generalizing constants with
  | nil =>
    cases run
    rfl
  | cons _ _ ih =>
    rw [forall_mem_cons] at known
    rcases bind_eq_ok.1 run with ⟨c, firstRun, run⟩
    cases c with
    | none => cases known.1 none firstRun
    | some c =>
      simp only [bind_eq_ok, pure_eq_ok] at run
      rcases run with ⟨_, restRun, rfl⟩
      rw [Option.isSome_map]
      exact ih known.2 restRun

theorem comparison_constant (known : ∀ arg ∈ args, ∀ c, arg.constantValue? = .ok c → c.isSome)
    (run : comparison operator own args = .ok t) : t.isConstant = true := by
  rcases bind_eq_ok.1 run with ⟨_, constantsRun, run⟩
  have isThere := isSome_allConstant known constantsRun
  split at run
  · cases isThere
  · rcases bind_eq_ok.1 run with ⟨_, _, run⟩
    split at run
    · cases run
      rfl
    · cases run
  · cases run

theorem takeOver_of_constant (isConstant : t.isConstant = true) : takeOver own t = t := by
  cases t with
  | unset => cases isConstant
  | _ => rfl

theorem infinite_of_ends (consistent : checkConsistent bounds = .ok ())
    (meet : bounds.minimum = bounds.maximum) : bounds.modulus = some .infinity := by
  by_contra finite
  have notInfinite : (bounds.modulus == some .infinity) = false := by simpa using finite
  simp only [checkConsistent, notInfinite, meet, Bool.false_eq_true, if_false, bind_eq_ok,
    bne_self_eq_false, ensure_false] at consistent
  rcases consistent with ⟨_, _, _, _, run⟩
  -- the ends have to differ, whichever of them are infinite
  by_cases high : bounds.maximum = some .infinity <;>
    by_cases low : bounds.maximum = some .negInfinity <;>
    simp [high, low, bind_eq_ok] at run

/-- The largest of some single values is one of them. -/
theorem largest_constant (complete : ∀ arg ∈ args, Complete p arg)
    (one : ∀ arg ∈ args, HasOneValue arg)
    (consistent : ∀ bounds, t = .integer bounds → checkConsistent bounds = .ok ())
    (run : largest own args = .ok t) : t.isConstant = true := by
  rcases largest_eq_ok run with ⟨first, rest, _, _, types, lowRun, highRun, result⟩
  have sameEnds : (first :: rest).map (·.minimum) = (first :: rest).map (·.maximum) := by
    apply map_congr_left
    intro t member
    rcases exists_left_of_mem types member with ⟨arg, inArgs, hasBounds⟩
    rcases (one arg inArgs).integer (complete arg inArgs) hasBounds with ⟨_, lowIs, highIs⟩
    exact lowIs.trans highIs.symm
  rw [sameEnds, highRun] at lowRun
  cases lowRun
  rcases result with ⟨_, rfl⟩ | ⟨_, _, rfl⟩
  · rfl
  · exact beq_iff_eq.2 (infinite_of_ends (consistent _ rfl) rfl)

theorem multiplicative_constant {left right : Expression}
    (complete : ∀ arg ∈ [left, right], Complete p arg)
    (one : ∀ arg ∈ [left, right], HasOneValue arg) (run : multiplicative own [left, right] = .ok t)
    : t.isConstant = true := by
  rcases multiplicative_eq_ok run with ⟨l, r, _, _, _, _, _, _, _, leftIs, rightIs, _, _, _, _, _, _,
    product, rfl⟩
  rcases (one left (by simp)).integer (complete left (by simp)) leftIs with ⟨leftOne, _⟩
  rcases (one right (by simp)).integer (complete right (by simp)) rightIs with ⟨rightOne, _⟩
  have allOne : [congruenceOf l, congruenceOf r].all (·.modulus == some .infinity) = true := by
    simp [congruenceOf, leftOne, rightOne]
  rw [Congruence.mul, if_pos allOne] at product
  simp only [bind_eq_ok, pure_eq_ok] at product
  rcases product with ⟨_, _, _, _, rfl⟩
  rfl

theorem choice_constant {condition ifTrue ifFalse : Expression}
    (isBoolean : sort? condition = some .boolean)
    (one : ∀ arg ∈ [condition, ifTrue, ifFalse], HasOneValue arg)
    (run : choice own [condition, ifTrue, ifFalse] = .ok t) : t.isConstant = true := by
  rcases (one condition (by simp)).boolean isBoolean with ⟨value, conditionIs⟩
  rcases one ifTrue (by simp) with ⟨left, leftIs, leftOne⟩
  rcases one ifFalse (by simp) with ⟨right, rightIs, rightOne⟩
  have chosen : (if value then left else right).isConstant = true := by
    cases value
    · exact rightOne
    · exact leftOne
  simp only [choice, conditionIs, leftIs, rightIs, require_some] at run
  cases run
  rwa [takeOver_of_constant chosen]

theorem operatorType_constant (accepts : operator.Accepts (args.map sort?) (sortOf t))
    (complete : ∀ arg ∈ args, Complete p arg) (one : ∀ arg ∈ args, HasOneValue arg)
    (known : ∀ arg ∈ args, ∀ c, arg.constantValue? = .ok c → c.isSome)
    (consistent : ∀ bounds, t = .integer bounds → checkConsistent bounds = .ok ())
    (run : operatorType operator own args = .ok t) : t.isConstant = true := by
  cases operator with
  | addition | subtraction =>
    rcases accepts with ⟨sorts, _⟩
    simp only [map_eq_cons_iff, map_eq_nil_iff] at sorts
    rcases sorts with ⟨left, _, rfl, _, right, _, rfl, _, rfl⟩
    rcases additive_eq_ok run with ⟨_, _, _, _, _, _, _, leftIs, rightIs, _, common, _, _, _, rfl⟩
    rcases (one left (by simp)).integer (complete left (by simp)) leftIs with ⟨leftOne, _⟩
    rcases (one right (by simp)).integer (complete right (by simp)) rightIs with ⟨rightOne, _⟩
    rw [leftOne, rightOne] at common
    cases common
    rfl
  | multiplication =>
    rcases accepts with ⟨sorts, _⟩
    simp only [map_eq_cons_iff, map_eq_nil_iff] at sorts
    rcases sorts with ⟨left, _, rfl, _, right, _, rfl, _, rfl⟩
    exact multiplicative_constant complete one run
  | choice =>
    rcases accepts with ⟨_, sorts⟩
    simp only [map_eq_cons_iff, map_eq_nil_iff] at sorts
    rcases sorts with ⟨_, _, rfl, isBoolean, _, _, rfl, _, _, _, rfl, _, rfl⟩
    exact choice_constant isBoolean one run
  | maximum => exact largest_constant complete one consistent run
  | upperBound | lowerBound =>
    simp only [operatorType, boundFunction, bind_eq_ok, pure_eq_ok] at run
    rcases run with ⟨_, _, _, _, _, _, rfl⟩
    rfl
  | unknown | presence => cases run
  | _ => exact comparison_constant known run

/-- The type of a complete expression that is made of constants allows one value. -/
theorem Closed.hasOneValue (closed : Closed e) (wellTyped : WellTyped p logical e)
    (complete : Complete p e) : HasOneValue e := by
  induction closed with
  | number =>
    rcases complete.settled with ⟨t, hasType, settled, _⟩
    cases settled with
    | plain _ rule =>
      rcases bind_eq_ok.1 rule with ⟨_, _, same⟩
      cases same
      exact ⟨_, hasType, rfl⟩
    | refers refers => cases refers
  | truth written =>
    rcases complete.settled with ⟨t, hasType, settled, _⟩
    cases settled with
    | @plain _ own _ _ rule =>
      cases own <;> cases rule
      exact ⟨_, hasType, by rw [written]; rfl⟩
    | refers refers => cases refers
  | fixed hasType isConstant => exact ⟨_, hasType, isConstant⟩
  | operation other arguments ih =>
    rcases settled_operation other wellTyped complete with
      ⟨own, t, _, hasType, rule, accepts, each⟩
    rcases complete.settled with ⟨_, sameType, _, consistent⟩
    cases Option.some.inj (hasType.symm.trans sameType)
    refine ⟨t, hasType, operatorType_constant accepts (fun arg member => (each arg member).2)
      (fun arg member => ?_) (fun arg member => ?_) consistent rule⟩
    · exact ih arg member (each arg member).1 (each arg member).2
    · exact isSome_constantValue? (arguments arg member) (each arg member).1

theorem HasOneValue.unique {v w : Constant} (one : HasOneValue e) (first : Known e v)
    (second : Known e w) : v = w := by
  rcases one with ⟨t, hasType, isConstant⟩
  rcases first with ⟨_, sameType, first⟩
  cases hasType.symm.trans sameType
  rcases second with ⟨_, sameType, second⟩
  cases hasType.symm.trans sameType
  cases t with
  | integer bounds =>
    rcases within_integer first with ⟨m, rfl, mBounded⟩
    rcases within_integer second with ⟨n, rfl, nBounded⟩
    have infinite : bounds.modulus = some .infinity := beq_iff_eq.1 isConstant
    cases (mBounded.eq_of_infinite infinite).symm.trans (nBounded.eq_of_infinite infinite)
    rfl
  | boolean =>
    rcases within_boolean first with ⟨a, rfl, aIs⟩
    rcases within_boolean second with ⟨b, rfl, bIs⟩
    rcases Option.isSome_iff_exists.1 isConstant with ⟨value, isKnown⟩
    rw [← aIs value isKnown, ← bIs value isKnown]
  | enumeration =>
    rcases Option.isSome_iff_exists.1 isConstant with ⟨text, isKnown⟩
    cases v with
    | bool b => exact first.elim
    | int m =>
      cases w with
      | bool b => exact second.elim
      | int n =>
        cases (first text isKnown).symm.trans (second text isKnown)
        rfl
  | _ => cases isConstant

/-- What has one value is left alone. -/
theorem HasOneValue.compute {depth : Nat} {s s' : Program} {e' : Expression} (one : HasOneValue e)
    (run : (Bounds.compute depth e).run s = .ok (e', s')) : e' = e ∧ s' = s := by
  rcases one with ⟨t, hasType, isConstant⟩
  rw [Bounds.compute] at run
  simp only [run_bind_eq_ok, run_liftM_eq_ok, entry_eq_ok, Prod.mk.injEq] at run
  rcases run with ⟨_, _, ⟨_, sameType, rfl, rfl⟩, run⟩
  cases hasType.symm.trans sameType
  rw [if_pos isConstant, run_pure_eq_ok, Prod.mk.injEq] at run
  exact run

end Closed

end BinaryLayout.Writing
