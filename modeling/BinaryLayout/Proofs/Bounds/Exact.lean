import BinaryLayout.Proofs.Bounds.Soundness
import BinaryLayout.Proofs.Bounds.WellFormed

/-!
# Bounds that are reached

The bounds of a sum, difference, product or largest element can be wider than its range, since
they do not take into account that two parts may depend on one field.  Main statement: if no field
or parameter occurs twice and all of them have finite bounds, then both ends are reached.

An end of the whole is the value of the operator at ends of its arguments.  These are reached at
values of different fields, and values that agree on the fields of an argument give it the same
value.
-/

namespace BinaryLayout.Bounds

open IR Checked List

/-- The names along the path to a field or parameter. -/
abbrev Leaf := List (Option CanonicalName)

def leafOf (r : FieldReference) : Leaf :=
  r.path.map (·.canonicalName)

mutual

/-- The value of an expression, given those of the fields and parameters in it. -/
def valueAt (ν : Leaf → Int) : Expression → Option Constant
  | .constant n _ => n.toInt.toOption.map .int
  | .fieldReference r _ => some (.int (ν (leafOf r)))
  | .function (some operator) args _ _ _ => (valuesAt ν args).bind operator.apply
  | _ => none

def valuesAt (ν : Leaf → Int) : List Expression → Option (List Constant)
  | [] => some []
  | e :: rest => (valueAt ν e).bind fun v => (valuesAt ν rest).map (v :: ·)

end

mutual

/-- The fields and parameters in an expression, with their types. -/
def leavesOf : Expression → List (Leaf × Option ExpressionType)
  | .fieldReference r note => [(leafOf r, note.type)]
  | .function _ args _ _ _ => leavesOfAll args
  | _ => []

def leavesOfAll : List Expression → List (Leaf × Option ExpressionType)
  | [] => []
  | e :: rest => leavesOf e ++ leavesOfAll rest

end

/-- Sums, differences, products and largest elements of numbers, fields and parameters. -/
inductive Arithmetic : Expression → Prop
  | number {n : NumericConstant} {note : Annotation} {i : Int} (written : n.value = some (.int i)) :
      Arithmetic (.constant n note)
  | leaf {r : FieldReference} {note : Annotation} : Arithmetic (.fieldReference r note)
  | binary {operator : Operator} {left right : Expression} {word : Option Word}
      {location : Option Location} {note : Annotation}
      (isBinary : operator ∈ [.addition, .subtraction, .multiplication])
      (onLeft : Arithmetic left) (onRight : Arithmetic right) :
      Arithmetic (.function (some operator) [left, right] word location note)
  | maximum {args : List Expression} {word : Option Word} {location : Option Location}
      {note : Annotation} (arguments : ∀ arg ∈ args, Arithmetic arg) :
      Arithmetic (.function (some .maximum) args word location note)

/-- The value that an expression takes if the fields and parameters in it have values that their
types allow. -/
def Attains (e : Expression) (k : Int) : Prop :=
  ∃ ν, (∀ leaf ∈ leavesOf e, ∀ t, leaf.2 = some t → Within t (.int (ν leaf.1))) ∧
    valueAt ν e = some (.int k)

section Agreement

variable {ν ν' : Leaf → Int}

mutual

/-- Only the fields and parameters in an expression matter for its value. -/
theorem valueAt_congr : ∀ e, (∀ leaf ∈ leavesOf e, ν leaf.1 = ν' leaf.1) →
    valueAt ν e = valueAt ν' e
  | .fieldReference r note, agree => by
    rw [valueAt, valueAt, agree (leafOf r, note.type) (by simp [leavesOf])]
  | .function (some _) args _ _ _, agree => by
    rw [leavesOf] at agree
    rw [valueAt, valueAt, valuesAt_congr args agree]
  | .function none .. , _ | .unset _, _ | .constant .., _ | .constantReference .., _
  | .booleanConstant .., _ | .builtinReference .., _ => by simp only [valueAt]

theorem valuesAt_congr : ∀ args, (∀ leaf ∈ leavesOfAll args, ν leaf.1 = ν' leaf.1) →
    valuesAt ν args = valuesAt ν' args
  | [], _ => rfl
  | e :: rest, agree => by
    rw [leavesOfAll, forall_mem_append] at agree
    rw [valuesAt, valuesAt, valueAt_congr e agree.1, valuesAt_congr rest agree.2]

end

end Agreement

variable {args args' : List Expression} {targets : List Int} {left right e e' : Expression}
  {own t : ExpressionType} {operator : Operator} {word : Option Word} {location : Option Location}
  {note : Annotation} {depth : Nat} {s s' : Program}

/-- Values that some expressions attain are attained together if no field or parameter occurs
twice. -/
theorem exists_valuesAt (attained : Forall₂ Attains args targets)
    (distinct : ((leavesOfAll args).map (·.1)).Nodup) :
    ∃ ν, (∀ leaf ∈ leavesOfAll args, ∀ t, leaf.2 = some t → Within t (.int (ν leaf.1))) ∧
      valuesAt ν args = some (targets.map .int) := by
  classical
  induction attained with
  | nil => exact ⟨fun _ => 0, by simp [leavesOfAll], rfl⟩
  | @cons e k rest _ head _ ih =>
    rcases head with ⟨ν, within, value⟩
    rw [leavesOfAll, map_append, nodup_append] at distinct
    rcases ih distinct.2.1 with ⟨ν', within', values⟩
    let merged (leaf : Leaf) := if leaf ∈ (leavesOf e).map (·.1) then ν leaf else ν' leaf
    have onHead : ∀ leaf ∈ leavesOf e, merged leaf.1 = ν leaf.1 := fun leaf member =>
      if_pos (mem_map_of_mem member)
    have onRest : ∀ leaf ∈ leavesOfAll rest, merged leaf.1 = ν' leaf.1 := fun leaf member =>
      if_neg fun inHead => distinct.2.2 _ inHead _ (mem_map_of_mem member) rfl
    refine ⟨merged, ?_, ?_⟩
    · rw [leavesOfAll, forall_mem_append]
      constructor
      · intro leaf member t hasType
        rw [onHead leaf member]
        exact within leaf member t hasType
      · intro leaf member t hasType
        rw [onRest leaf member]
        exact within' leaf member t hasType
    · rw [valuesAt, valueAt_congr e onHead, value, valuesAt_congr rest onRest, values]
      rfl

/-- The bounds of an expression are finite, and it attains both. -/
def Reached (e : Expression) : Prop :=
  ∃ t, e.type = some (.integer t) ∧ ∀ upper, ∃ k, ending upper t = some (.int k) ∧ Attains e k

/-! ## Ends of operators -/

/-- The bounds of an operator are finite, and each is the value at numbers that its arguments
attain. -/
def Combined (operator : Operator) (args : List Expression) (t : ExpressionType) : Prop :=
  ∃ bounds, t = .integer bounds ∧ ∀ upper, ∃ k targets, ending upper bounds = some (.int k) ∧
    Forall₂ Attains args targets ∧ operator.apply (targets.map .int) = some (.int k)

theorem additive_combined {isSum : Bool} (isOperator : ∀ x y,
      operator.apply [.int x, .int y] = some (.int (if isSum then x + y else x - y)))
    (onLeft : Reached left) (onRight : Reached right)
    (run : additive isSum own [left, right] = .ok t) : Combined operator [left, right] t := by
  rcases additive_eq_ok run with ⟨l, r, _, _, _, low, high, leftType, rightType, _, _, _, lowRun,
    highRun, rfl⟩
  rcases onLeft with ⟨_, again, leftEnds⟩
  cases leftType.symm.trans again
  rcases onRight with ⟨_, again, rightEnds⟩
  cases rightType.symm.trans again
  refine ⟨_, rfl, fun upper => ?_⟩
  rcases leftEnds upper with ⟨x, isLeft, attainsLeft⟩
  rcases rightEnds (upper == isSum) with ⟨y, isRight, attainsRight⟩
  refine ⟨_, [x, y], ?_, .cons attainsLeft (.cons attainsRight .nil), isOperator x y⟩
  have isEnd : (if isSum then add else sub) (ending upper l) (ending (upper == isSum) r) =
      .ok (if upper then high else low) := by
    cases upper with
    | true => cases isSum <;> exact highRun
    | false => cases isSum <;> exact lowRun
  have sum : (if isSum then add else sub) (some (.int x)) (some (.int y)) =
      .ok (.int (if isSum then x + y else x - y)) := by
    cases isSum <;> rfl
  rw [isLeft, isRight] at isEnd
  cases upper <;> exact congrArg some (Except.ok.inj (isEnd.symm.trans sum))

theorem multiplicative_combined (onLeft : Reached left) (onRight : Reached right)
    (run : multiplicative own [left, right] = .ok t) :
    Combined .multiplication [left, right] t := by
  rcases multiplicative_eq_ok run with ⟨l, r, a, b, c, d, low, high, _, leftType, rightType,
    highHigh, lowHigh, highLow, lowLow, lowRun, highRun, _, rfl⟩
  rcases onLeft with ⟨_, again, leftEnds⟩
  cases leftType.symm.trans again
  rcases onRight with ⟨_, again, rightEnds⟩
  cases rightType.symm.trans again
  choose x isLeft attainsLeft using leftEnds
  choose y isRight attainsRight using rightEnds
  have corner (u w : Bool) : mul (ending u l) (ending w r) = .ok (.int (x u * y w)) := by
    rw [isLeft, isRight]
    rfl
  cases (corner true true).symm.trans highHigh
  cases (corner false true).symm.trans lowHigh
  cases (corner true false).symm.trans highLow
  cases (corner false false).symm.trans lowLow
  refine ⟨_, rfl, fun upper => ?_⟩
  have proper (text : String) : .other text ∉ [Numeral.int (x true * y true),
      .int (x false * y true), .int (x true * y false), .int (x false * y false)] := by simp
  rcases exists_extreme upper (cons_ne_nil _ _) proper with ⟨n, member, extremeRun⟩
  obtain ⟨u, w, rfl⟩ : ∃ u w, n = .int (x u * y w) := by
    simp only [mem_cons, not_mem_nil, or_false] at member
    rcases member with rfl | rfl | rfl | rfl <;> exact ⟨_, _, rfl⟩
  refine ⟨x u * y w, [x u, y w], ?_, .cons (attainsLeft u) (.cons (attainsRight w) .nil), rfl⟩
  cases upper with
  | true =>
    cases highRun.symm.trans extremeRun
    rfl
  | false =>
    cases lowRun.symm.trans extremeRun
    rfl

theorem exists_targets {types : List IntegerType} (upper : Bool)
    (typed : Forall₂ (fun arg t => arg.type = some (.integer t)) args types)
    (each : ∀ arg ∈ args, Reached arg) :
    ∃ targets, Forall₂ Attains args targets ∧
      types.map (ending upper) = (targets.map Numeral.int).map some := by
  induction typed with
  | nil => exact ⟨[], .nil, rfl⟩
  | cons hasType _ ih =>
    rw [forall_mem_cons] at each
    rcases ih each.2 with ⟨targets, attained, isEnds⟩
    rcases each.1 with ⟨_, again, ends⟩
    cases hasType.symm.trans again
    rcases ends upper with ⟨k, isEnd, attains⟩
    refine ⟨k :: targets, .cons attains attained, ?_⟩
    rw [map_cons, isEnd, isEnds]
    rfl

theorem largest_combined (each : ∀ arg ∈ args, Reached arg) (run : largest own args = .ok t) :
    Combined .maximum args t := by
  rcases largest_eq_ok run with ⟨first, rest, low, high, types, lowRun, highRun, form⟩
  have isEnds : ∃ bounds, t = .integer bounds ∧ ∀ upper,
      maximum ((first :: rest).map (ending upper)) = Failure.require (ending upper bounds) := by
    rcases form with ⟨rfl, rfl⟩ | ⟨_, _, rfl⟩
    · exact ⟨_, rfl, fun upper => by cases upper; exacts [lowRun, highRun]⟩
    · exact ⟨_, rfl, fun upper => by cases upper; exacts [lowRun, highRun]⟩
  rcases isEnds with ⟨bounds, rfl, isEnds⟩
  refine ⟨bounds, rfl, fun upper => ?_⟩
  rcases exists_targets upper types each with ⟨_ | ⟨a, others⟩, attained, same⟩
  · cases same
  have isEnd := isEnds upper
  rw [same] at isEnd
  have proper (text : String) : .other text ∉ (a :: others).map Numeral.int := by simp
  rcases exists_extreme true (by simp) proper with ⟨n, member, extremeRun⟩
  rcases mem_map.1 member with ⟨k, inTargets, rfl⟩
  have numbers : ∀ v ∈ others.map Constant.int, ∃ n, v = .int n := by simp
  rcases exists_greatest a numbers with ⟨m, greatest⟩
  rcases greatest_spec greatest with ⟨among, above⟩
  have equal : m = k := by
    rcases above (.int k) (mem_map_of_mem inTargets) with ⟨_, le, ⟨⟩⟩
    have inEnds : some (.int m) ∈ ((a :: others).map Numeral.int).map some := by
      simpa using among
    exact le_antisymm (le_of_atMost rfl (maximum_atMost extremeRun inEnds
      (atMost_of_finite rfl le_rfl))) le
  refine ⟨k, a :: others, Failure.require_eq_ok.1 (isEnd.symm.trans extremeRun), attained, ?_⟩
  simp [Operator.apply, greatest, equal]

/-! ## Every expression -/

theorem leavesOf_sublist {arg : Expression} (member : arg ∈ args) :
    (leavesOf arg).Sublist (leavesOfAll args) := by
  induction args with
  | nil => cases member
  | cons head tail ih =>
    rw [leavesOfAll]
    rcases mem_cons.1 member with rfl | inTail
    · exact sublist_append_left ..
    · exact (ih inTail).trans (sublist_append_right ..)

theorem computeAll_eq_ok (run : (computeAll depth args).run s = .ok (args', s')) :
    Forall₂ (fun arg arg' => ∃ s s', (compute depth arg).run s = .ok (arg', s')) args args' := by
  induction args generalizing s args' with
  | nil =>
    rw [computeAll, run_pure_eq_ok, Prod.mk.injEq] at run
    rcases run with ⟨rfl, rfl⟩
    exact .nil
  | cons _ _ ih =>
    rw [computeAll] at run
    simp only [run_bind_eq_ok, run_pure_eq_ok, Prod.mk.injEq] at run
    rcases run with ⟨_, _, headRun, _, _, tailRun, rfl, rfl⟩
    exact .cons ⟨_, _, headRun⟩ (ih tailRun)

/-- All fields and parameters in an expression have finite bounds, and none occurs twice. -/
structure Uncorrelated (leaves : List (Leaf × Option ExpressionType)) : Prop where
  finite : ∀ leaf ∈ leaves, ∃ t low high, leaf.2 = some (.integer t) ∧
    t.minimum = some (.int low) ∧ t.maximum = some (.int high)
  distinct : (leaves.map (·.1)).Nodup

theorem isOpen_of_untouched (untouched : Untouched e)
    (run : (compute depth e).run s = .ok (e', s')) :
    ∃ own, e.type = some own ∧ own.isConstant = false := by
  rw [compute] at run
  rcases run_lift_bind_eq_ok.1 run with ⟨own, hasType, _⟩
  rw [Failure.entry_eq_ok] at hasType
  exact ⟨own, hasType, untouched.isOpen hasType⟩

/-- The ends of finite bounds that fit together belong to them. -/
theorem bounded_of_consistent {t : IntegerType} {low high : Int}
    (consistent : checkConsistent t = .ok ()) (isLow : t.minimum = some (.int low))
    (isHigh : t.maximum = some (.int high)) : Bounded t low ∧ Bounded t high := by
  have lowFinite : finite t.minimum = .ok low := by rw [isLow]; rfl
  have highFinite : finite t.maximum = .ok high := by rw [isHigh]; rfl
  rcases consistent_cases consistent lowFinite highFinite with ⟨infinite, lowIs, highIs⟩ |
    ⟨m, r, _, modulusIs, _, remainderIs, lowIs, highIs, le⟩
  · rcases t with ⟨_, _, _, _⟩
    cases infinite
    cases lowIs
    cases highIs
    cases isLow
    cases isHigh
    exact ⟨singleton_bounded rfl, singleton_bounded rfl⟩
  · have holds {k : Int} (congruent : k % m = r) : (congruenceOf t).Holds k :=
      Congruence.holds_iff.2 ⟨m, r, modulusIs, remainderIs, congruent ▸ Int.dvd_self_sub_emod⟩
    exact ⟨⟨atLeast_of_finite lowFinite le_rfl, atMost_of_finite highFinite le, holds lowIs⟩,
      atLeast_of_finite lowFinite le, atMost_of_finite highFinite le_rfl, holds highIs⟩

/-- What is computed for an operator, given what is for its arguments. -/
theorem function_run (untouched : Untouched (.function (some operator) args word location note))
    (other : operator ≠ .presence)
    (run : (compute depth (.function (some operator) args word location note)).run s =
      .ok (e', s')) : ∃ own args' t, (∀ arg ∈ args, Untouched arg) ∧
      Forall₂ (fun arg arg' => ∃ s s', (compute depth arg).run s = .ok (arg', s')) args args' ∧
      operatorType operator own args' = .ok t ∧
      settle (.function (some operator) args' word location note) t = .ok e' := by
  rcases isOpen_of_untouched untouched run with ⟨own, hasType, isOpen⟩
  rw [compute, run_open_eq_ok hasType isOpen] at run
  simp only [run_bind_eq_ok] at run
  rcases run with ⟨args', _, argsRun, run⟩
  simp only [run_liftM_eq_ok, Prod.mk.injEq] at run
  rcases run with ⟨t, _, ⟨_, rule, rfl, _⟩, _, settled, rfl, _⟩
  exact ⟨own, args', t, untouched.arguments, computeAll_eq_ok argsRun, rule, settled⟩

theorem Uncorrelated.argument {arg : Expression} (uncorrelated : Uncorrelated (leavesOfAll args))
    (member : arg ∈ args) : Uncorrelated (leavesOf arg) :=
  have part := leavesOf_sublist member
  ⟨fun leaf inPart => uncorrelated.finite leaf (part.subset inPart),
    uncorrelated.distinct.sublist (part.map _)⟩

theorem operation_reached {word : Option Word} {location : Option Location} {note : Annotation}
    (uncorrelated : Uncorrelated (leavesOfAll args)) (combined : Combined operator args t)
    (settled : settle (.function (some operator) args word location note) t = .ok e') :
    Reached e' := by
  rcases settle_eq_ok.1 settled with ⟨_, rfl⟩
  rcases combined with ⟨bounds, rfl, ends⟩
  refine ⟨bounds, rfl, fun upper => ?_⟩
  rcases ends upper with ⟨k, targets, isEnd, attained, applied⟩
  rcases exists_valuesAt attained uncorrelated.distinct with ⟨ν, within, values⟩
  refine ⟨k, isEnd, ν, ?_, ?_⟩
  · exact within
  · change (valuesAt ν args).bind operator.apply = _
    rw [values]
    exact applied

/-- Both bounds that are computed for arithmetic on fields and parameters with finite bounds are
values of it, if none of them occurs twice. -/
theorem compute_exact {p p' : Program} (arithmetic : Arithmetic e) (untouched : Untouched e)
    (run : (compute depth e).run p = .ok (e', p')) (uncorrelated : Uncorrelated (leavesOf e')) :
    Reached e' := by
  induction arithmetic generalizing p p' e' with
  | @number n note i written =>
    rcases isOpen_of_untouched untouched run with ⟨own, hasType, isOpen⟩
    rw [compute, run_open_eq_ok hasType isOpen] at run
    simp only [run_bind_eq_ok, run_liftM_eq_ok, Prod.mk.injEq, literalType, bind_eq_ok,
      pure_eq_ok] at run
    rcases run with ⟨_, _, ⟨_, ⟨_, _, rfl⟩, rfl, _⟩, _, settled, rfl, _⟩
    rcases settle_eq_ok.1 settled with ⟨_, rfl⟩
    refine ⟨_, rfl, fun upper => ⟨i, by cases upper <;> exact written, fun _ => 0, ?_, ?_⟩⟩
    · rintro _ ⟨⟩
    · change n.toInt.toOption.map Constant.int = _
      rw [NumericConstant.toInt, written]
      rfl
  | @leaf r note =>
    rcases isOpen_of_untouched untouched run with ⟨own, hasType, isOpen⟩
    rw [compute, run_open_eq_ok hasType isOpen] at run
    simp only [run_bind_eq_ok, run_liftM_eq_ok, Prod.mk.injEq] at run
    rcases run with ⟨_, _, _, _, _, _, _, _, _, _, _, _, _, _, _, t, _, _, _, settled, rfl, _⟩
    rcases settle_eq_ok.1 settled with ⟨consistent, rfl⟩
    rcases uncorrelated.finite (leafOf r, some t) mem_cons_self with
      ⟨bounds, low, high, same, isLow, isHigh⟩
    cases same
    rcases bounded_of_consistent (consistent bounds rfl) isLow isHigh with ⟨onLow, onHigh⟩
    have attains {k : Int} (bounded : Bounded bounds k) :
        Attains ((Expression.fieldReference r note).withType (some (.integer bounds))) k := by
      refine ⟨fun _ => k, ?_, rfl⟩
      rintro _ member _ hasType
      cases mem_singleton.1 member
      cases hasType
      exact bounded
    refine ⟨bounds, rfl, fun upper => ?_⟩
    cases upper with
    | true => exact ⟨high, isHigh, attains onHigh⟩
    | false => exact ⟨low, isLow, attains onLow⟩
  | @binary operator left right _ _ _ isBinary _ _ leftReached rightReached =>
    rcases function_run untouched (by rintro rfl; simp at isBinary) run with
      ⟨own, args', t, untouched, runs, rule, settled⟩
    rcases runs with _ | @⟨_, left', _, _, ⟨_, _, leftRun⟩, _ |
      @⟨_, right', _, _, ⟨_, _, rightRun⟩, _ | _⟩⟩
    have uncorrelated : Uncorrelated (leavesOfAll [left', right']) := by
      rcases settle_eq_ok.1 settled with ⟨_, rfl⟩
      exact uncorrelated
    have onLeft := leftReached (untouched left (by simp)) leftRun (uncorrelated.argument (by simp))
    have onRight := rightReached (untouched right (by simp)) rightRun
      (uncorrelated.argument (by simp))
    refine operation_reached uncorrelated ?_ settled
    simp only [mem_cons, not_mem_nil, or_false] at isBinary
    rcases isBinary with rfl | rfl | rfl
    · exact additive_combined (fun _ _ => rfl) onLeft onRight rule
    · exact additive_combined (fun _ _ => rfl) onLeft onRight rule
    · exact multiplicative_combined onLeft onRight rule
  | maximum _ reached =>
    rcases function_run untouched (by decide) run with
      ⟨own, args', t, untouched, runs, rule, settled⟩
    have uncorrelated : Uncorrelated (leavesOfAll args') := by
      rcases settle_eq_ok.1 settled with ⟨_, rfl⟩
      exact uncorrelated
    refine operation_reached uncorrelated (largest_combined (fun arg' member => ?_) rule) settled
    rcases exists_left_of_mem runs member with ⟨arg, inArgs, _, _, argRun⟩
    exact reached arg inArgs (untouched arg inArgs) argRun (uncorrelated.argument member)

namespace Sample

/-- Ten less the counter, with the types of the difference and its parts. -/
def difference (left right own : ExpressionType) : Expression :=
  .function (some .subtraction) [number 10 left, member "counter" right] none none
    { type := some own }

/-- What is known of ten less the counter. -/
def ofDifference : ExpressionType :=
  .integer ⟨some (.int 1), some (.int 0), some (.int (-245)), some (.int 10)⟩

end Sample

/-- Ten less a byte can be ten, and 245 below zero. -/
theorem compute_exact_difference :
    (compute 1 (Sample.difference (.integer {}) (.integer {}) (.integer {}))).run Sample.untouched =
        .ok (Sample.difference (.integer (singleton (some (.int 10)))) Sample.ofByte
          Sample.ofDifference, Sample.untouched) ∧
      Reached (Sample.difference (.integer (singleton (some (.int 10)))) Sample.ofByte
        Sample.ofDifference) := by
  have run : (compute 1 (Sample.difference (.integer {}) (.integer {}) (.integer {}))).run
      Sample.untouched = .ok (Sample.difference (.integer (singleton (some (.int 10))))
        Sample.ofByte Sample.ofDifference, Sample.untouched) := by
    cbv
  refine ⟨run, compute_exact (.binary (by decide) (.number rfl) .leaf) ?_ run ⟨?_, ?_⟩⟩
  · refine .call (by decide) fun arg member => ?_
    rcases mem_pair.1 member with rfl | rfl <;> exact .leaf rfl (by decide)
  · rintro _ member
    cases mem_singleton.1 member
    exact ⟨_, 0, 255, rfl, rfl, rfl⟩
  · decide

end BinaryLayout.Bounds
