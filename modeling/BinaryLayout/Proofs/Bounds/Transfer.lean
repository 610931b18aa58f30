import BinaryLayout.Bounds.Transfer
import BinaryLayout.Proofs.Bounds.Arithmetic
import BinaryLayout.Proofs.Evaluation
import BinaryLayout.Typing.Basic

/-!
# Operators keep bounds

What is known of the value of an operator holds, if what is known of its arguments holds.  There
is one statement for each way of computing a type: sums and differences, products, the largest of
some integers, comparisons and logical operators, choices, and the bound functions.
-/

namespace BinaryLayout.Bounds

open IR Typing Checked List

variable {v a b : Constant} {number x y best m : Int} {t own : ExpressionType}
  {bounds left right : IntegerType} {e condition ifTrue ifFalse : Expression}
  {modulus remainder : Numeral} {isSum : Bool} {rest values : List Constant} {c : Congruence}
  {args : List Expression} {operator : Operator}

/-- What is known of an integer holds. -/
structure Bounded (t : IntegerType) (number : Int) : Prop where
  low : AtLeast t.minimum number
  high : AtMost t.maximum number
  congruent : (congruenceOf t).Holds number

/-- What a type says of a value holds.  Of a value that expressions cannot take apart nothing is
said. -/
def Within : ExpressionType → Constant → Prop
  | .integer t, .int number => Bounded t number
  | .boolean known, .bool b => ∀ value, known.value = some value → value = b
  | .enumeration known, .int number => ∀ text, known.value = some text → text.toInt = .ok number
  | .compound, _ => True
  | _, _ => False

theorem within_integer {t : IntegerType} (within : Within (.integer t) v) :
    ∃ number, v = .int number ∧ Bounded t number := by
  cases v with
  | bool b => exact within.elim
  | int number => exact ⟨number, rfl, within⟩

theorem within_boolean {known : BooleanType} (within : Within (.boolean known) v) :
    ∃ b, v = .bool b ∧ ∀ value, known.value = some value → value = b := by
  cases v with
  | bool b => exact ⟨b, rfl, within⟩
  | int => exact within.elim

theorem singleton_bounded {value : Bound} (known : finite value = .ok number) :
    Bounded (singleton value) number :=
  ⟨atLeast_of_finite known le_rfl, atMost_of_finite known le_rfl, by
    rw [Congruence.Holds, if_pos (by rfl)]
    exact known⟩

theorem Bounded.eq_of_infinite {t : IntegerType} (bounded : Bounded t number)
    (infinite : t.modulus = some .infinity) : finite t.modularValue = .ok number := by
  have congruent := bounded.congruent
  rwa [Congruence.Holds, if_pos (by exact infinite)] at congruent

theorem integerOf_eq_ok : integerOf t = .ok bounds ↔ t = .integer bounds := by
  cases t <;> simp [integerOf]

theorem boundsOf_eq_ok : boundsOf e = .ok bounds ↔ e.type = some (.integer bounds) := by
  simp [boundsOf, bind_eq_ok, integerOf_eq_ok]

theorem twoOf_eq_ok {α : Type} {list : List α} {pair : α × α} :
    twoOf list = .ok pair ↔ list = [pair.1, pair.2] := by
  rcases pair with ⟨a, b⟩
  unfold twoOf
  split
  · simp
  · rename_i other
    constructor
    · rintro ⟨⟩
    · rintro rfl
      exact (other a b rfl).elim

/-- The type of an expression says something of a value, and it holds. -/
def Known (e : Expression) (v : Constant) : Prop :=
  ∃ t, e.type = some t ∧ Within t v

theorem Known.bounded (known : Known e (.int number)) (hasType : e.type = some (.integer bounds)) :
    Bounded bounds number := by
  rcases known with ⟨t, typeIs, within⟩
  rw [hasType] at typeIs
  cases typeIs
  exact within

/-! ## Bounds that fit together -/

/-- The bounds of a single value are the same. -/
theorem ends_of_infinite {t : IntegerType} (consistent : checkConsistent t = .ok ())
    (infinite : t.modulus = some .infinity) :
    t.minimum = t.modularValue ∧ t.maximum = t.modularValue := by
  simp only [checkConsistent, infinite, beq_self_eq_true, if_true, bind_eq_ok,
    Failure.ensure_eq_ok, beq_iff_eq] at consistent
  rcases consistent with ⟨_, low, high⟩
  exact ⟨low, high⟩

/-- Finite bounds are those of a single value, or both ends belong to the congruence. -/
theorem consistent_cases {t : IntegerType} {low high : Int} (consistent : checkConsistent t = .ok ())
    (isLow : finite t.minimum = .ok low) (isHigh : finite t.maximum = .ok high) :
    (t.modulus = some .infinity ∧ t.minimum = t.modularValue ∧ t.maximum = t.modularValue) ∨
      ∃ m r, t.modulus ≠ some .infinity ∧ divisorOf t.modulus = .ok m ∧ 0 < m ∧
        finite t.modularValue = .ok r ∧ low % m = r ∧ high % m = r ∧ low ≤ high := by
  by_cases infinite : t.modulus = some .infinity
  · exact .inl ⟨infinite, ends_of_infinite consistent infinite⟩
  · have notInfinite : (t.modulus == some .infinity) = false := by simpa using infinite
    have lowFinite : t.minimum ≠ some .negInfinity := by
      intro same
      rw [same] at isLow
      cases isLow
    have highFinite : t.maximum ≠ some .infinity := by
      intro same
      rw [same] at isHigh
      cases isHigh
    simp only [checkConsistent, notInfinite, Bool.false_eq_true, if_false, bind_eq_ok,
      Failure.ensure_eq_ok, beq_iff_eq, lowFinite, highFinite, ne_eq, not_false_eq_true, if_true,
      isLow, isHigh, Except.ok.injEq, and_self, decide_eq_true_eq] at consistent
    rcases consistent with ⟨m, isModulus, _, pos, _, rfl, r, isRemainder, _, lowIs, _, rfl, _, again,
      _, highIs, _, _, _, rfl, _, rfl, le⟩
    cases isRemainder.symm.trans again
    exact .inr ⟨m, r, infinite, (divisorOf_of_ne infinite).trans isModulus, pos, isRemainder, lowIs,
      highIs, le⟩

/-! ## Sums and differences -/

/-- A remainder brought below its modulus says the same. -/
theorem reduce_holds {n g : Int} (run : reduce (.int n) modulus = .ok remainder)
    (known : divisorOf (some modulus) = .ok g) (divides : g ∣ number - n) :
    Congruence.Holds ⟨some modulus, some remainder⟩ number := by
  unfold reduce at run
  split at run
  · cases run
    exact Congruence.holds_of_dvd known rfl divides
  · simp only [bind_eq_ok, pure_eq_ok] at run
    rcases run with ⟨m, modulusKnown, r, remainderRun, rfl⟩
    rw [divisorOf_of_toInt modulusKnown] at known
    cases known
    rcases remainderBy_eq_ok remainderRun with ⟨_, rfl⟩
    exact Congruence.holds_of_dvd (divisorOf_of_toInt modulusKnown) rfl (dvd_sub_fmod divides)

theorem additive_congruent {value : Numeral}
    (valueRun : (if isSum then add else sub) left.modularValue right.modularValue = .ok value)
    (modulusRun : gcd left.modulus right.modulus = .ok modulus)
    (reduced : reduce value modulus = .ok remainder) (xHolds : (congruenceOf left).Holds x)
    (yHolds : (congruenceOf right).Holds y) :
    Congruence.Holds ⟨some modulus, some remainder⟩ (if isSum then x + y else x - y) := by
  rcases Congruence.holds_iff.1 xHolds with ⟨m, r, leftModulus, leftRemainder, mDivides⟩
  rcases Congruence.holds_iff.1 yHolds with ⟨n, s, rightModulus, rightRemainder, nDivides⟩
  rcases gcd_eq_ok modulusRun with ⟨_, _, leftAgain, rightAgain, _, _, common⟩
  obtain rfl := Except.ok.inj (leftModulus.symm.trans leftAgain)
  obtain rfl := Except.ok.inj (rightModulus.symm.trans rightAgain)
  have gLeft : (Int.gcd m n : Int) ∣ x - r := (Int.gcd_dvd_left ..).trans mDivides
  have gRight : (Int.gcd m n : Int) ∣ y - s := (Int.gcd_dvd_right ..).trans nDivides
  cases isSum with
  | true =>
    cases (add_of_finite leftRemainder rightRemainder).symm.trans valueRun
    refine reduce_holds reduced common ?_
    have split : x + y - (r + s) = (x - r) + (y - s) := by ring
    rw [if_pos rfl, split]
    exact Int.dvd_add gLeft gRight
  | false =>
    cases (sub_of_finite leftRemainder rightRemainder).symm.trans valueRun
    refine reduce_holds reduced common ?_
    have split : x - y - (r - s) = (x - r) - (y - s) := by ring
    rw [if_neg Bool.false_ne_true, split]
    exact Int.dvd_sub gLeft gRight

/-- How the bounds of a sum or difference come about. -/
theorem additive_eq_ok {left right : Expression} (run : additive isSum own [left, right] = .ok t) :
    ∃ l r value modulus remainder low high, left.type = some (.integer l) ∧
      right.type = some (.integer r) ∧
      (if isSum then add else sub) l.modularValue r.modularValue = .ok value ∧
      gcd l.modulus r.modulus = .ok modulus ∧ reduce value modulus = .ok remainder ∧
      (if isSum then add else sub) l.minimum (if isSum then r.minimum else r.maximum) = .ok low ∧
      (if isSum then add else sub) l.maximum (if isSum then r.maximum else r.minimum) = .ok high ∧
      t = .integer ⟨some modulus, some remainder, some low, some high⟩ := by
  rw [additive, bind_eq_ok] at run
  rcases run with ⟨_, _, run⟩
  simp only [bind_eq_ok, twoOf_eq_ok, boundsOf_eq_ok, pure_eq_ok, Prod.exists, additiveCongruence,
    Prod.mk.injEq] at run
  rcases run with ⟨_, _, ⟨⟩, l, leftType, r, rightType, _, _, ⟨value, valueRun, modulus, modulusRun,
    rfl, rfl⟩, _, _, remainder, reduced, low, lowRun, high, highRun, rfl⟩
  refine ⟨l, r, value, modulus, remainder, low, high, leftType, rightType, valueRun, modulusRun,
    reduced, ?_, ?_, rfl⟩
  · cases isSum <;> exact lowRun
  · cases isSum <;> exact highRun

theorem additive_within {left right : Expression} (run : additive isSum own [left, right] = .ok t)
    (leftKnown : Known left (.int x)) (rightKnown : Known right (.int y)) :
    Within t (.int (if isSum then x + y else x - y)) := by
  rcases additive_eq_ok run with ⟨_, _, _, _, _, _, _, leftType, rightType, valueRun, modulusRun,
    reduced, minimumRun, maximumRun, rfl⟩
  have leftBounds := leftKnown.bounded leftType
  have rightBounds := rightKnown.bounded rightType
  have congruent := additive_congruent valueRun modulusRun reduced leftBounds.congruent
    rightBounds.congruent
  have xLow := beyond_one.2 leftBounds.low
  have xHigh := beyond_neg_one.2 leftBounds.high
  have yLow := beyond_one.2 rightBounds.low
  have yHigh := beyond_neg_one.2 rightBounds.high
  refine ⟨beyond_one.1 ?_, beyond_neg_one.1 ?_, congruent⟩ <;> cases isSum
  · exact sub_beyond (.inl rfl) xLow yHigh minimumRun
  · exact add_beyond (.inl rfl) xLow yLow minimumRun
  · exact sub_beyond (.inr rfl) xHigh yLow maximumRun
  · exact add_beyond (.inr rfl) xHigh yHigh maximumRun

/-! ## Products -/

/-- How the bounds of a product come about. -/
theorem multiplicative_eq_ok {left right : Expression}
    (run : multiplicative own [left, right] = .ok t) :
    ∃ l r a b c d low high product, left.type = some (.integer l) ∧
      right.type = some (.integer r) ∧ mul l.maximum r.maximum = .ok a ∧
      mul l.minimum r.maximum = .ok b ∧ mul l.maximum r.minimum = .ok c ∧
      mul l.minimum r.minimum = .ok d ∧ minimum ([a, b, c, d].map some) = .ok low ∧
      maximum ([a, b, c, d].map some) = .ok high ∧
      (congruenceOf l).mul (congruenceOf r) [] = .ok product ∧
      t = .integer ⟨product.modulus, product.remainder, some low, some high⟩ := by
  simp only [multiplicative, bind_eq_ok, mapM_eq_ok, pure_eq_ok,
    Failure.element_eq_ok, integerOf_eq_ok, Failure.require_eq_ok] at run
  rcases run with ⟨types, typesRun, _, firstType, l, rfl, _, secondType, r, rfl, run⟩
  rcases typesRun with _ | ⟨leftType, _ | ⟨rightType, _ | _⟩⟩
  cases firstType
  cases secondType
  rcases run with ⟨a, highHigh, b, lowHigh, c, highLow, d, lowLow, low, lowRun, high, highRun, _, _,
    others, othersRun, product, productRun, rfl⟩
  cases othersRun
  exact ⟨l, r, a, b, c, d, low, high, product, leftType, rightType, highHigh, lowHigh, highLow,
    lowLow, lowRun, highRun, productRun, rfl⟩

theorem multiplicative_within {left right : Expression}
    (run : multiplicative own [left, right] = .ok t) (leftKnown : Known left (.int x))
    (rightKnown : Known right (.int y)) : Within t (.int (x * y)) := by
  rcases multiplicative_eq_ok run with ⟨_, _, a, b, c, d, _, _, _, leftType, rightType, highHigh,
    lowHigh, highLow, lowLow, minimumRun, maximumRun, congruenceRun, rfl⟩
  have leftBounds := leftKnown.bounded leftType
  have rightBounds := rightKnown.bounded rightType
  have yLow := beyond_one.2 rightBounds.low
  have yHigh := beyond_neg_one.2 rightBounds.high
  refine ⟨?_, ?_, Congruence.mul_holds congruenceRun leftBounds.congruent rightBounds.congruent⟩
  · have corner : ∃ bound ∈ [a, b, c, d].map some, Beyond 1 bound (x * y) := by
      rcases le_total 0 y with notNegative | notPositive
      · rcases corner_beyond (.inl rfl) (.inl rfl) (by omega) (beyond_one.2 leftBounds.low)
          yLow yHigh lowLow lowHigh with low | low
        · exact ⟨_, by simp, low⟩
        · exact ⟨_, by simp, low⟩
      · rcases corner_beyond (.inr rfl) (.inr rfl) (by omega) (beyond_neg_one.2 leftBounds.high)
          yHigh yLow highHigh highLow with low | low
        · exact ⟨_, by simp, low⟩
        · exact ⟨_, by simp, low⟩
    rcases corner with ⟨bound, member, low⟩
    exact minimum_atLeast minimumRun member (beyond_one.1 low)
  · have corner : ∃ bound ∈ [a, b, c, d].map some, Beyond (-1) bound (x * y) := by
      rcases le_total 0 y with notNegative | notPositive
      · rcases corner_beyond (.inr rfl) (.inl rfl) (by omega) (beyond_neg_one.2 leftBounds.high)
          yLow yHigh highLow highHigh with high | high
        · exact ⟨_, by simp, high⟩
        · exact ⟨_, by simp, high⟩
      · rcases corner_beyond (.inl rfl) (.inr rfl) (by omega) (beyond_one.2 leftBounds.low)
          yHigh yLow lowHigh lowLow with high | high
        · exact ⟨_, by simp, high⟩
        · exact ⟨_, by simp, high⟩
    rcases corner with ⟨bound, member, high⟩
    exact maximum_atMost maximumRun member (beyond_neg_one.1 high)

/-! ## The largest of some integers -/

theorem exists_greatest (best : Int) (numbers : ∀ v ∈ rest, ∃ n, v = .int n) :
    ∃ m, Operator.apply.greatest best rest = some m := by
  induction rest generalizing best with
  | nil => exact ⟨best, rfl⟩
  | cons _ _ ih =>
    rw [forall_mem_cons] at numbers
    rcases numbers.1 with ⟨n, rfl⟩
    exact ih (max best n) numbers.2

theorem greatest_spec (found : Operator.apply.greatest best rest = some m) :
    .int m ∈ Constant.int best :: rest ∧ ∀ v ∈ Constant.int best :: rest, ∃ n ≤ m, v = .int n := by
  induction rest generalizing best with
  | nil =>
    cases found
    simp
  | cons head tail ih =>
    cases head with
    | bool b => simp [Operator.apply.greatest] at found
    | int n =>
      rcases ih found with ⟨member, least⟩
      rcases least _ mem_cons_self with ⟨_, above, ⟨⟩⟩
      constructor
      · rcases mem_cons.1 member with equal | inTail
        · cases equal
          rcases max_choice best n with first | second
          · rw [first]
            exact mem_cons_self
          · rw [second]
            simp
        · simp [inTail]
      · intro v inAll
        rcases mem_cons.1 inAll with rfl | inRest
        · exact ⟨best, (le_max_left ..).trans above, rfl⟩
        · rcases mem_cons.1 inRest with rfl | inTail
          · exact ⟨n, (le_max_right ..).trans above, rfl⟩
          · exact least v (mem_cons_of_mem _ inTail)

theorem joined_holds {types : List IntegerType} {start joined : Congruence}
    (run : types.foldlM (fun c t => c.join (congruenceOf t)) start = .ok joined)
    (holds : start.Holds number ∨ ∃ t ∈ types, (congruenceOf t).Holds number) :
    joined.Holds number := by
  induction types generalizing start with
  | nil =>
    cases run
    simpa using holds
  | cons _ _ ih =>
    rw [foldlM_cons, bind_eq_ok] at run
    rcases run with ⟨_, joinRun, run⟩
    refine ih run ?_
    rcases holds with atStart | ⟨t, member, atOne⟩
    · exact .inl (Congruence.join_holds joinRun (by simp) atStart)
    · rcases mem_cons.1 member with rfl | inTail
      · exact .inl (Congruence.join_holds joinRun (by simp) atOne)
      · exact .inr ⟨t, inTail, atOne⟩

theorem Congruence.Holds.known (holds : c.Holds number) :
    ∃ modulus remainder, c = ⟨some modulus, some remainder⟩ := by
  rcases Congruence.holds_iff.1 holds with ⟨m, r, modulusKnown, remainderKnown, _⟩
  rcases c with ⟨_ | modulus, _ | remainder⟩
  · cases remainderKnown
  · cases modulusKnown
  · cases remainderKnown
  · exact ⟨modulus, remainder, rfl⟩

theorem largest_eq_ok (run : largest own args = .ok t) :
    ∃ (first : IntegerType) (rest : List IntegerType) (least greatest : Numeral),
      List.Forall₂ (fun arg bounds => arg.type = some (.integer bounds)) args (first :: rest) ∧
      maximum ((first :: rest).map (·.minimum)) = .ok least ∧
      maximum ((first :: rest).map (·.maximum)) = .ok greatest ∧
      (least = greatest ∧ t = .integer (singleton (some least)) ∨
        ∃ joined, rest.foldlM (fun c t => c.join (congruenceOf t)) (congruenceOf first) =
            .ok joined ∧
          t = .integer ⟨some (joined.modulus.getD (.other "None")),
            some (joined.remainder.getD (.other "None")), some least, some greatest⟩) := by
  unfold largest at run
  cases own with
  | integer bounds =>
    simp only [bind_eq_ok, Failure.element_eq_ok, Failure.require_eq_ok] at run
    rcases run with ⟨arg, head, type, _, run⟩
    cases type with
    | integer _ =>
      simp only [bind_eq_ok, mapM_eq_ok, boundsOf_eq_ok] at run
      rcases run with ⟨bounds, types, least, leastRun, greatest, greatestRun, run⟩
      rcases types with _ | ⟨headType, others⟩
      · cases head
      · cases head
        rename_i rest
        refine ⟨_, rest, least, greatest, .cons headType others, leastRun, greatestRun, ?_⟩
        split at run
        · rename_i same
          exact .inl ⟨same, (pure_eq_ok.1 run).symm⟩
        · rw [bind_eq_ok] at run
          rcases run with ⟨bounds, again, run⟩
          rw [boundsOf_eq_ok, headType] at again
          cases again
          simp only [bind_eq_ok, pure_eq_ok] at run
          rcases run with ⟨joined, joinedRun, rfl⟩
          exact .inr ⟨joined, joinedRun, rfl⟩
    | _ =>
      simp only [bind_eq_ok] at run
      rcases run with ⟨_, impossible, _⟩
      exact (throw_ne_ok impossible).elim
  | _ =>
    simp only [bind_eq_ok] at run
    rcases run with ⟨_, impossible, _⟩
    exact (throw_ne_ok impossible).elim

theorem largest_within (run : largest own args = .ok t) (known : List.Forall₂ Known args values)
    (applied : Operator.apply .maximum values = some (.int m)) : Within t (.int m) := by
  rcases largest_eq_ok run with ⟨first, rest, least, greatest, types, leastRun, greatestRun, form⟩
  obtain ⟨member, least_le⟩ : .int m ∈ values ∧ ∀ v ∈ values, ∃ n ≤ m, v = .int n := by
    rcases values with _ | ⟨_ | _, _⟩
    · simp [Operator.apply] at applied
    · simp [Operator.apply] at applied
    · simp only [Operator.apply, Option.map_eq_some_iff] at applied
      rcases applied with ⟨_, found, ⟨⟩⟩
      exact greatest_spec found
  obtain ⟨bounds, inBounds, ownBounds⟩ : ∃ bounds ∈ first :: rest, Bounded bounds m := by
    rcases exists_left_of_mem known member with ⟨arg, inArgs, ownKnown⟩
    rcases exists_right_of_mem types inArgs with ⟨bounds, inBounds, typeIs⟩
    exact ⟨bounds, inBounds, ownKnown.bounded typeIs⟩
  have low : AtLeast (some least) m := by
    refine maximum_atLeast leastRun fun bound inMinimums => ?_
    rcases mem_map.1 inMinimums with ⟨_, inOthers, rfl⟩
    rcases exists_left_of_mem types inOthers with ⟨arg, inArgs, typeIs⟩
    rcases exists_right_of_mem known inArgs with ⟨v, inValues, otherKnown⟩
    rcases least_le v inValues with ⟨n, le, rfl⟩
    exact (otherKnown.bounded typeIs).low.mono le
  have high : AtMost (some greatest) m :=
    maximum_atMost greatestRun (mem_map_of_mem inBounds) ownBounds.high
  rcases form with ⟨rfl, rfl⟩ | ⟨joined, joinedRun, rfl⟩
  · exact singleton_bounded (finite_of_atLeast_atMost low high)
  · have holds : joined.Holds m := by
      refine joined_holds joinedRun ?_
      rcases mem_cons.1 inBounds with rfl | inRest
      · exact .inl ownBounds.congruent
      · exact .inr ⟨bounds, inRest, ownBounds.congruent⟩
    rcases holds.known with ⟨_, _, rfl⟩
    exact ⟨low, high, holds⟩

/-! ## Constant values of operators -/

theorem binary?_apply {f : Int → Int → Constant} (isBinary : operator.binary? = some f)
    (applied : operator.apply [a, b] = some v) : f a.toInt b.toInt = v := by
  cases operator with
  | addition | subtraction | multiplication | less | lessOrEqual | greater | greaterOrEqual =>
    cases isBinary
    rcases a with x | x <;> rcases b with y | y <;> cases applied
    rfl
  | equality =>
    cases isBinary
    rcases a with x | x <;> rcases b with y | y <;> cases applied
    · cases x <;> cases y <;> rfl
    · rfl
  | inequality =>
    cases isBinary
    rcases a with x | x <;> rcases b with y | y <;> cases applied
    · cases x <;> cases y <;> rfl
    · by_cases same : x = y <;> simp [Constant.toInt, same]
  | _ => cases isBinary

theorem maximum_eq_greatest (greatest : Operator.apply.greatest best rest = some m) :
    Constant.maximum (.int best) rest = .int m := by
  induction rest generalizing best with
  | nil => cases greatest; rfl
  | cons head tail ih =>
    cases head with
    | bool b => cases greatest
    | int n =>
      have larger : (if (Constant.int best).toInt < (Constant.int n).toInt then Constant.int n
          else Constant.int best) = Constant.int (max best n) := by
        by_cases below : best < n
        · rw [max_eq_right below.le]
          exact if_pos below
        · rw [max_eq_left (not_lt.1 below)]
          exact if_neg below
      rw [Constant.maximum, foldl_cons, larger]
      exact ih greatest

theorem evaluate_apply {c : Constant} (evaluated : operator.evaluate values = .ok c)
    (applied : operator.apply values = some v) : c = v := by
  unfold Operator.evaluate at evaluated
  split at evaluated
  · rename_i f isBinary
    cases evaluated
    exact binary?_apply isBinary applied
  · cases evaluated
  · rename_i first rest isBinary
    cases evaluated
    cases first with
    | bool b => cases applied
    | int a =>
      rcases Option.map_eq_some_iff.1 applied with ⟨m, greatest, rfl⟩
      exact maximum_eq_greatest greatest
  · cases evaluated
  · cases evaluated

/-! ## Comparisons and logical operators -/

theorem allConstant_eq_ok (run : allConstant args = .ok (some values)) :
    List.Forall₂ (fun arg c => arg.constantValue? = .ok (some c)) args values := by
  induction args generalizing values with
  | nil =>
    cases run
    exact .nil
  | cons _ _ ih =>
    rw [allConstant, bind_eq_ok] at run
    rcases run with ⟨_ | c, headRun, run⟩
    · cases run
    · simp only [bind_eq_ok, pure_eq_ok, Option.map_eq_some_iff] at run
      rcases run with ⟨_, tailRun, _, rfl, rfl⟩
      exact .cons headRun (ih tailRun)

/-- A comparison of expressions that are not all constant says nothing, and one of two constants
says what the comparison of their values is. -/
theorem comparison_eq_ok (run : comparison operator own args = .ok t) :
    t = own ∨
      ∃ left right a b value, args = [left, right] ∧ left.constantValue? = .ok (some a) ∧
        right.constantValue? = .ok (some b) ∧ compareConstants operator a b = .ok value ∧
        sortOf own = some .boolean ∧ t = .boolean ⟨some value⟩ := by
  rw [comparison, bind_eq_ok] at run
  rcases run with ⟨_ | values, constants, run⟩
  · exact .inl (pure_eq_ok.1 run).symm
  · have related := allConstant_eq_ok constants
    split at run
    · contradiction
    · rename_i a b equal
      cases equal
      rcases related with _ | ⟨leftRun, _ | ⟨rightRun, _ | _⟩⟩
      rw [bind_eq_ok] at run
      rcases run with ⟨value, compared, run⟩
      cases own with
      | boolean =>
        exact .inr ⟨_, _, a, b, value, rfl, leftRun, rightRun, compared, rfl,
          (pure_eq_ok.1 run).symm⟩
      | _ => exact (throw_ne_ok run).elim
    · exact (throw_ne_ok run).elim

/-- Nothing is said of a truth value that is not known. -/
theorem within_of_open {b : Bool} (sort : sortOf own = some .boolean)
    (isOpen : own.isConstant = false) : Within own (.bool b) := by
  cases own with
  | boolean =>
    intro value isKnown
    rw [ExpressionType.isConstant, isKnown] at isOpen
    cases isOpen
  | _ => cases sort

theorem comparison_within {outcome : Bool} (run : comparison operator own args = .ok t)
    (isOpen : own.isConstant = false) (sort : sortOf t = some .boolean)
    (decided : ∀ left right a b value, args = [left, right] →
      left.constantValue? = .ok (some a) → right.constantValue? = .ok (some b) →
      compareConstants operator a b = .ok value → value = outcome) : Within t (.bool outcome) := by
  rcases comparison_eq_ok run with rfl | ⟨left, right, a, b, value, rfl, leftConstant,
    rightConstant, compared, _, rfl⟩
  · exact within_of_open sort isOpen
  · rintro _ ⟨⟩
    exact decided left right a b value rfl leftConstant rightConstant compared

theorem compareConstants_apply {value : Bool} (compared : compareConstants operator a b = .ok value)
    (applied : operator.apply [a, b] = some v) : v = .bool value := by
  cases operator with
  | equality | inequality | less | lessOrEqual | greater | greaterOrEqual =>
    rw [← binary?_apply rfl applied]
    exact congrArg Constant.bool (pure_eq_ok.1 compared)
  | and | or => cases applied
  | _ => cases compared

/-! ## Choices -/

theorem boundsOrEmpty_of_bounded {t : IntegerType} (bounded : Bounded t number) :
    boundsOrEmpty (.integer t) = t := by
  rcases bounded.congruent.known with ⟨_, _, equal⟩
  rcases t with ⟨m, r, low, high⟩
  cases equal
  have lowKnown : ∃ n, low = some n := by
    rcases atLeast_cases bounded.low with isInfinite | ⟨n, known, _⟩
    · exact ⟨_, isInfinite⟩
    · cases low with
      | none => cases known
      | some n => exact ⟨n, rfl⟩
  have highKnown : ∃ n, high = some n := by
    rcases atMost_cases bounded.high with isInfinite | ⟨n, known, _⟩
    · exact ⟨_, isInfinite⟩
    · cases high with
      | none => cases known
      | some n => exact ⟨n, rfl⟩
  rcases lowKnown with ⟨_, rfl⟩
  rcases highKnown with ⟨_, rfl⟩
  rfl

/-- Bounds of two integers that hold of either of them. -/
theorem choice_bounded {least greatest : Numeral}
    (minimumRun : minimum [left.minimum, right.minimum] = .ok least)
    (maximumRun : maximum [left.maximum, right.maximum] = .ok greatest)
    (joined : (congruenceOf left).join (congruenceOf right) = .ok c)
    (bounded : Bounded left number ∨ Bounded right number) :
    Bounded ⟨c.modulus, c.remainder, some least, some greatest⟩ number := by
  rcases bounded with onLeft | onRight
  · exact ⟨minimum_atLeast minimumRun (by simp) onLeft.low,
      maximum_atMost maximumRun (by simp) onLeft.high,
      Congruence.join_holds joined (by simp) onLeft.congruent⟩
  · exact ⟨minimum_atLeast minimumRun (by simp) onRight.low,
      maximum_atMost maximumRun (by simp) onRight.high,
      Congruence.join_holds joined (by simp) onRight.congruent⟩

theorem choice_eq_ok (run : choice own [condition, ifTrue, ifFalse] = .ok t) :
    ∃ decision left right, condition.type = some decision ∧ ifTrue.type = some left ∧
      ifFalse.type = some right ∧
      ((∃ value, decision = .boolean ⟨some value⟩ ∧
          t = takeOver own (if value then left else right)) ∨
        (∃ l, left = .integer l ∧ ∃ least greatest c,
          minimum [(boundsOrEmpty left).minimum, (boundsOrEmpty right).minimum] = .ok least ∧
          maximum [(boundsOrEmpty left).maximum, (boundsOrEmpty right).maximum] = .ok greatest ∧
          (congruenceOf (boundsOrEmpty left)).join (congruenceOf (boundsOrEmpty right)) = .ok c ∧
          t = .integer ⟨c.modulus, c.remainder, some least, some greatest⟩) ∨
        ((sortOf left = some .boolean ∨ sortOf left = some .enumeration) ∧ t = own)) := by
  simp only [choice, bind_eq_ok, Failure.require_eq_ok] at run
  rcases run with ⟨decision, decisionIs, left, leftIs, right, rightIs, run⟩
  refine ⟨decision, left, right, decisionIs, leftIs, rightIs, ?_⟩
  split at run
  · exact .inl ⟨_, rfl, (pure_eq_ok.1 run).symm⟩
  · refine .inr ?_
    cases left with
    | integer l =>
      simp only [bind_eq_ok, pure_eq_ok] at run
      rcases run with ⟨least, leastRun, greatest, greatestRun, c, joined, rfl⟩
      exact .inl ⟨l, rfl, least, greatest, c, leastRun, greatestRun, joined, rfl⟩
    | boolean => exact .inr ⟨.inl rfl, (pure_eq_ok.1 run).symm⟩
    | enumeration => exact .inr ⟨.inr rfl, (pure_eq_ok.1 run).symm⟩
    | unset | compound => exact (throw_ne_ok run).elim

/-- A value of the same sort as a type that says nothing more. -/
theorem within_of_sort (within : Within t v) (same : sortOf own = sortOf t)
    (isOpen : own.isConstant = false) (notInteger : sortOf t ≠ some .integer) : Within own v := by
  cases t <;> cases own <;> cases v <;> simp_all [Within, sortOf, ExpressionType.isConstant]

theorem choice_within {decided : Bool} (run : choice own [condition, ifTrue, ifFalse] = .ok t)
    (conditionKnown : Known condition (.bool decided))
    (chosenKnown : Known (if decided then ifTrue else ifFalse) v) (isOpen : own.isConstant = false)
    (leftSort : sort? ifTrue = sortOf t) (rightSort : sort? ifFalse = sortOf t) : Within t v := by
  rcases choice_eq_ok run with ⟨_, left, right, decisionIs, leftIs, rightIs, form⟩
  rcases conditionKnown with ⟨_, again, decisionHolds⟩
  cases decisionIs.symm.trans again
  rcases chosenKnown with ⟨chosen, chosenIs, within⟩
  have chosenType : (if decided then left else right) = chosen := by
    cases decided with
    | true => exact Option.some.inj (leftIs.symm.trans chosenIs)
    | false => exact Option.some.inj (rightIs.symm.trans chosenIs)
  rw [sort?, leftIs] at leftSort
  rw [sort?, rightIs] at rightSort
  rcases form with ⟨value, rfl, rfl⟩ | ⟨l, rfl, _, _, c, leastRun, greatestRun, joined,
    rfl⟩ | ⟨sort, same⟩
  · cases decisionHolds value rfl
    rw [chosenType]
    cases chosen with
    | unset => exact within.elim
    | _ => exact within
  · obtain ⟨r, rfl⟩ : ∃ r, right = .integer r := by
      rw [← leftSort] at rightSort
      cases right with
      | integer r => exact ⟨r, rfl⟩
      | _ => cases rightSort
    cases decided with
    | true =>
      cases chosenType
      rcases within_integer within with ⟨number, rfl, bounded⟩
      rw [boundsOrEmpty_of_bounded bounded] at leastRun greatestRun joined
      exact choice_bounded leastRun greatestRun joined (.inl bounded)
    | false =>
      cases chosenType
      rcases within_integer within with ⟨number, rfl, bounded⟩
      rw [boundsOrEmpty_of_bounded bounded] at leastRun greatestRun joined
      exact choice_bounded leastRun greatestRun joined (.inr bounded)
  · rw [same] at leftSort rightSort ⊢
    have chosenSort : sortOf own = sortOf chosen := by
      rw [← chosenType]
      cases decided with
      | true => exact leftSort.symm
      | false => exact rightSort.symm
    refine within_of_sort within chosenSort isOpen ?_
    rw [← chosenSort, ← leftSort]
    rcases sort with isBoolean | isEnumeration
    · simp [isBoolean]
    · simp [isEnumeration]

/-! ## Bound functions -/

theorem boundFunction_eq_ok {isUpper : Bool} {arg : Expression}
    (run : boundFunction isUpper own [arg] = .ok t) :
    ∃ bounds, arg.type = some (.integer bounds) ∧
      t = .integer (singleton (if isUpper then bounds.maximum else bounds.minimum)) := by
  simp only [boundFunction, bind_eq_ok, Failure.element_eq_ok, boundsOf_eq_ok, pure_eq_ok] at run
  rcases run with ⟨_, ⟨⟩, bounds, typeIs, _, _, rfl⟩
  exact ⟨bounds, typeIs, rfl⟩

end BinaryLayout.Bounds
