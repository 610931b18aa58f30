import Mathlib.Data.Int.GCD
import Mathlib.Tactic.Linarith
import Mathlib.Tactic.Ring
import BinaryLayout.Bounds.Arithmetic
import BinaryLayout.Proofs.Checked

/-!
# What bounds say about a number

A lower bound, an upper bound and a congruence each hold of some integers.  The arithmetic of
bounds is sound for this reading: what holds of two numbers gives, by the operation on bounds,
something that holds of their sum, difference, product or maximum.

An infinite modulus is read as zero, since a number is congruent to another modulo zero only if
the two are equal.  With this reading the greatest common divisor of two moduli is that of two
integers, and no case of the congruences is special.
-/

namespace BinaryLayout.Bounds

open IR Checked List

variable {bound a b : Bound} {n number m x y s r side : Int} {sum difference greatest modulus : Numeral}
  {list : List Bound} {numbers : List Int} {c : Congruence}

/-- The number is not below the bound. -/
def AtLeast : Bound → Int → Prop
  | some .negInfinity, _ => True
  | bound, number => ∃ n, finite bound = .ok n ∧ n ≤ number

/-- The number is not above the bound. -/
def AtMost : Bound → Int → Prop
  | some .infinity, _ => True
  | bound, number => ∃ n, finite bound = .ok n ∧ number ≤ n

/-- The number leaves the remainder when divided by the modulus; it is the remainder if the
modulus is infinite. -/
def Congruence.Holds (c : Congruence) (number : Int) : Prop :=
  if c.modulus = some .infinity then finite c.remainder = .ok number
  else ∃ m r, finite c.modulus = .ok m ∧ finite c.remainder = .ok r ∧ m ∣ number - r

/-! ## Finite and infinite bounds -/

@[simp]
theorem finite_int (n : Int) : finite (some (.int n)) = .ok n :=
  rfl

theorem not_isInfinite_of_finite (known : finite bound = .ok n) : isInfinite bound = false := by
  rcases bound with _ | (_ | _ | _ | _) <;> simp_all [finite, Numeral.toInt, isInfinite,
    Numeral.isInfinite]

theorem atLeast_cases (low : AtLeast bound number) :
    bound = some .negInfinity ∨ ∃ n, finite bound = .ok n ∧ n ≤ number := by
  unfold AtLeast at low
  split at low
  · exact .inl rfl
  · exact .inr low

theorem atMost_cases (high : AtMost bound number) :
    bound = some .infinity ∨ ∃ n, finite bound = .ok n ∧ number ≤ n := by
  unfold AtMost at high
  split at high
  · exact .inl rfl
  · exact .inr high

theorem le_of_atLeast {low : Int} (isLow : finite bound = .ok low) (atLeast : AtLeast bound n) :
    low ≤ n := by
  rcases atLeast_cases atLeast with rfl | ⟨_, again, below⟩
  · cases isLow
  · cases isLow.symm.trans again
    exact below

theorem le_of_atMost {high : Int} (isHigh : finite bound = .ok high) (atMost : AtMost bound n) :
    n ≤ high := by
  rcases atMost_cases atMost with rfl | ⟨_, again, above⟩
  · cases isHigh
  · cases isHigh.symm.trans again
    exact above

theorem atLeast_of_finite (known : finite bound = .ok n) (below : n ≤ number) :
    AtLeast bound number := by
  unfold AtLeast
  split
  · trivial
  · exact ⟨n, known, below⟩

theorem atMost_of_finite (known : finite bound = .ok n) (above : number ≤ n) :
    AtMost bound number := by
  unfold AtMost
  split
  · trivial
  · exact ⟨n, known, above⟩

theorem AtLeast.mono (low : AtLeast bound m) (le : m ≤ n) : AtLeast bound n := by
  rcases atLeast_cases low with rfl | ⟨k, known, below⟩
  · trivial
  · exact atLeast_of_finite known (below.trans le)

theorem finite_of_atLeast_atMost (low : AtLeast bound number) (high : AtMost bound number) :
    finite bound = .ok number := by
  rcases atLeast_cases low with rfl | ⟨m, lowKnown, below⟩
  · simp [AtMost, finite, Numeral.toInt] at high
  · rcases atMost_cases high with rfl | ⟨n, highKnown, above⟩
    · simp [finite, Numeral.toInt] at lowKnown
    · rw [lowKnown] at highKnown
      cases highKnown
      rw [lowKnown, le_antisymm below above]

/-- The number is on one side of the bound: not below it for `1`, not above it for `-1`. -/
def Beyond (side : Int) (bound : Bound) (number : Int) : Prop :=
  bound = some (infinityOfSign (-side)) ∨ ∃ n, finite bound = .ok n ∧ side * n ≤ side * number

theorem beyond_one : Beyond 1 bound number ↔ AtLeast bound number := by
  refine ⟨?_, fun low => (atLeast_cases low).imp_right ?_⟩
  · rintro (rfl | ⟨n, known, below⟩)
    · trivial
    · exact atLeast_of_finite known (by omega)
  · rintro ⟨n, known, below⟩
    exact ⟨n, known, by omega⟩

theorem beyond_neg_one : Beyond (-1) bound number ↔ AtMost bound number := by
  refine ⟨?_, fun high => (atMost_cases high).imp_right ?_⟩
  · rintro (rfl | ⟨n, known, above⟩)
    · trivial
    · exact atMost_of_finite known (by omega)
  · rintro ⟨n, known, above⟩
    exact ⟨n, known, by omega⟩

/-! ## Sums and differences -/

theorem add_of_finite (left : finite a = .ok m) (right : finite b = .ok n) :
    add a b = .ok (.int (m + n)) := by
  have ordered : addOrdered a b = .ok (.int (m + n)) := by
    rcases b with _ | (_ | _ | _ | _)
    · simp [finite] at right
    · simp only [addOrdered, left, right]; rfl
    · simp [finite, Numeral.toInt] at right
    · simp [finite, Numeral.toInt] at right
    · simp only [addOrdered, left, right]; rfl
  rw [add, not_isInfinite_of_finite left, if_neg Bool.false_ne_true, ordered]

theorem add_beyond (isSide : side = 1 ∨ side = -1) (left : Beyond side a x)
    (right : Beyond side b y) (run : add a b = .ok sum) : Beyond side (some sum) (x + y) := by
  rcases left with rfl | ⟨m, leftKnown, leftBeyond⟩
  · rcases isSide with rfl | rfl <;> rcases bind_eq_ok.1 run with ⟨_, _, equal⟩ <;> cases equal <;>
      exact .inl rfl
  · rcases right with rfl | ⟨n, rightKnown, rightBeyond⟩
    · rw [add, not_isInfinite_of_finite leftKnown, if_neg Bool.false_ne_true] at run
      rcases isSide with rfl | rfl <;> rcases bind_eq_ok.1 run with ⟨_, _, equal⟩ <;>
        cases equal <;> exact .inl rfl
    · rw [add_of_finite leftKnown rightKnown] at run
      cases run
      exact .inr ⟨_, rfl, by linarith⟩

/-- The difference with an integer is the sum with its opposite. -/
theorem sub_eq_add_of_finite (known : finite b = .ok n) : sub a b = add a (some (.int (-n))) := by
  rcases b with _ | (_ | _ | _ | _)
  · simp [finite] at known
  · simp only [sub, known]; rfl
  · simp [finite, Numeral.toInt] at known
  · simp [finite, Numeral.toInt] at known
  · simp only [sub, known]; rfl

theorem sub_of_finite (left : finite a = .ok m) (right : finite b = .ok n) :
    sub a b = .ok (.int (m - n)) := by
  rw [sub_eq_add_of_finite right, add_of_finite left (finite_int _)]
  rfl

theorem sub_beyond (isSide : side = 1 ∨ side = -1) (left : Beyond side a x)
    (right : Beyond (-side) b y) (run : sub a b = .ok difference) :
    Beyond side (some difference) (x - y) := by
  rw [Int.sub_eq_add_neg]
  rcases right with rfl | ⟨n, known, beyond⟩
  · rcases isSide with rfl | rfl <;> exact add_beyond (by simp) left (.inl rfl) run
  · rw [sub_eq_add_of_finite known] at run
    exact add_beyond isSide left (.inr ⟨_, rfl, by linarith⟩) run

/-! ## Products -/

theorem mul_of_finite (left : finite a = .ok m) (right : finite b = .ok n) :
    mul a b = .ok (.int (m * n)) := by
  simp only [mul, not_isInfinite_of_finite left, not_isInfinite_of_finite right, left, right]
  rfl

theorem sign_of_finite (known : finite bound = .ok n) : sign bound = .ok n.sign := by
  rcases bound with _ | (_ | _ | _ | _)
  · simp [finite] at known
  · simp only [sign, known]; rfl
  · simp [finite, Numeral.toInt] at known
  · simp [finite, Numeral.toInt] at known
  · simp only [sign, known]; rfl

theorem mul_infinite {t : Int} (unbounded : isInfinite a ∨ isInfinite b) (left : sign a = .ok s)
    (right : sign b = .ok t) : mul a b = .ok (infinityOfSign (s * t)) := by
  simp only [mul, Bool.or_eq_true, if_pos unbounded, left, right]
  rfl

theorem sign_infinityOfSign (isSide : side = 1 ∨ side = -1) :
    isInfinite (some (infinityOfSign side)) ∧
      sign (some (infinityOfSign side)) = .ok side := by
  rcases isSide with rfl | rfl <;> exact ⟨rfl, rfl⟩

theorem sign_eq_or_eq_zero (isSide : side = 1 ∨ side = -1) (toSide : 0 ≤ side * n) :
    n.sign = side ∨ n = 0 := by
  rcases isSide with rfl | rfl
  · exact (lt_or_eq_of_le (show 0 ≤ n by omega)).imp Int.sign_eq_one_of_pos Eq.symm
  · exact (lt_or_eq_of_le (show n ≤ 0 by omega)).imp_left Int.sign_eq_neg_one_of_neg

theorem beyond_infinityOfSign (away : s = -side ∨ s = 0 ∧ 0 ≤ side * number) :
    Beyond side (some (infinityOfSign s)) number := by
  rcases away with rfl | ⟨rfl, holds⟩
  · exact .inl rfl
  · exact .inr ⟨0, rfl, by omega⟩

/-- For a fixed sign of `y` only one end of the factor `x` matters.  The sign of that end says
whether the end of `y` does that is nearer to zero or the one that is further from it. -/
theorem corner_beyond {σ ρ : Int} {near far : Bound} {r s : Numeral} (isSide : σ = 1 ∨ σ = -1)
    (isSign : ρ = 1 ∨ ρ = -1) (ySign : 0 ≤ ρ * y) (isEnd : Beyond σ a x) (isNear : Beyond ρ near y)
    (isFar : Beyond (-ρ) far y) (first : mul a near = .ok r) (second : mul a far = .ok s) :
    Beyond (σ * ρ) (some r) (x * y) ∨ Beyond (σ * ρ) (some s) (x * y) := by
  rcases isEnd with rfl | ⟨m, known, mLe⟩
  · right
    rcases sign_infinityOfSign (show -σ = 1 ∨ _ by omega) with ⟨infinite, signA⟩
    rcases isFar with rfl | ⟨n, farKnown, leN⟩
    · rw [mul_infinite (.inl infinite) signA (sign_infinityOfSign (by omega)).2] at second
      cases second
      exact beyond_infinityOfSign (.inl (by ring))
    · rw [mul_infinite (.inl infinite) signA (sign_of_finite farKnown)] at second
      cases second
      refine beyond_infinityOfSign ?_
      rcases sign_eq_or_eq_zero isSign (show 0 ≤ ρ * n by linarith) with signN | rfl
      · exact .inl (by rw [signN]; ring)
      · have : ρ * y = 0 := by linarith
        exact .inr ⟨by simp, by rw [show σ * ρ * (x * y) = σ * x * (ρ * y) by ring, this, mul_zero]⟩
  · by_cases nonneg : 0 ≤ σ * m
    · left
      rcases isNear with rfl | ⟨n, nearKnown, nLe⟩
      · rcases sign_infinityOfSign (show -ρ = 1 ∨ _ by omega) with ⟨infinite, signNear⟩
        rw [mul_infinite (.inr infinite) (sign_of_finite known) signNear] at first
        cases first
        refine beyond_infinityOfSign ?_
        rcases sign_eq_or_eq_zero isSide nonneg with signM | rfl
        · exact .inl (by rw [signM]; ring)
        · exact .inr ⟨by simp, by nlinarith⟩
      · rw [mul_of_finite known nearKnown] at first
        cases first
        exact .inr ⟨_, rfl, by nlinarith⟩
    · right
      rcases isFar with rfl | ⟨n, farKnown, leN⟩
      · rcases sign_infinityOfSign (show - -ρ = 1 ∨ _ by omega) with ⟨infinite, signFar⟩
        rw [mul_infinite (.inr infinite) (sign_of_finite known) signFar] at second
        cases second
        have signM : m.sign = -σ :=
          (sign_eq_or_eq_zero (by omega) (by linarith)).resolve_right (by rintro rfl; simp at nonneg)
        exact beyond_infinityOfSign (.inl (by rw [signM]; ring))
      · rw [mul_of_finite known farKnown] at second
        cases second
        exact .inr ⟨_, rfl, by nlinarith⟩

/-! ## Extremes -/

theorem mem_finiteOnes (run : finiteOnes list = .ok numbers) (member : bound ∈ list)
    (known : finite bound = .ok n) : n ∈ numbers := by
  rw [finiteOnes, mapM_eq_ok] at run
  have kept : bound ∈ list.filter fun b => !isInfinite b := by
    simp [member, not_isInfinite_of_finite known]
  rcases exists_right_of_mem run kept with ⟨m, inNumbers, same⟩
  cases known.symm.trans same
  exact inNumbers

theorem finiteOnes_mem (run : finiteOnes list = .ok numbers) (member : n ∈ numbers) :
    ∃ bound ∈ list, finite bound = .ok n := by
  rw [finiteOnes, mapM_eq_ok] at run
  rcases exists_left_of_mem run member with ⟨bound, kept, known⟩
  exact ⟨bound, mem_of_mem_filter kept, known⟩

/-- The smallest of some bounds is below whatever one of them is below. -/
theorem minimum_atLeast {least : Numeral} (run : minimum list = .ok least) (member : bound ∈ list)
    (low : AtLeast bound number) : AtLeast (some least) number := by
  unfold minimum at run
  split at run
  · cases run
    trivial
  · rename_i noneBelow
    have notNegative : bound ≠ some .negInfinity := by
      rintro rfl
      exact noneBelow (contains_iff_mem.2 member)
    rcases (atLeast_cases low).resolve_left notNegative with ⟨n, known, below⟩
    split at run
    · rename_i allAbove
      have := all_eq_true.1 allAbove _ member
      simp only [beq_iff_eq] at this
      subst this
      simp [finite, Numeral.toInt] at known
    · rw [bind_eq_ok] at run
      rcases run with ⟨_, finiteRun, run⟩
      have inNumbers := mem_finiteOnes finiteRun member known
      split at run
      · rename_i smallest isLeast
        cases run
        exact atLeast_of_finite rfl (((min?_eq_some_iff).1 isLeast).2 n inNumbers |>.trans below)
      · rename_i noneThere
        rw [min?_eq_none_iff] at noneThere
        simp [noneThere] at inNumbers

/-- The largest of some bounds is above whatever one of them is above. -/
theorem maximum_atMost (run : maximum list = .ok greatest) (member : bound ∈ list)
    (high : AtMost bound number) : AtMost (some greatest) number := by
  unfold maximum at run
  split at run
  · cases run
    trivial
  · rename_i noneAbove
    have notPositive : bound ≠ some .infinity := by
      rintro rfl
      exact noneAbove (contains_iff_mem.2 member)
    rcases (atMost_cases high).resolve_left notPositive with ⟨n, known, above⟩
    split at run
    · rename_i allBelow
      have := all_eq_true.1 allBelow _ member
      simp only [beq_iff_eq] at this
      subst this
      simp [finite, Numeral.toInt] at known
    · rw [bind_eq_ok] at run
      rcases run with ⟨_, finiteRun, run⟩
      have inNumbers := mem_finiteOnes finiteRun member known
      split at run
      · rename_i largest isGreatest
        cases run
        exact atMost_of_finite rfl (above.trans (((max?_eq_some_iff).1 isGreatest).2 n inNumbers))
      · rename_i noneThere
        rw [max?_eq_none_iff] at noneThere
        simp [noneThere] at inNumbers

/-- The largest of some bounds is below whatever all of them are below. -/
theorem maximum_atLeast (run : maximum list = .ok greatest)
    (low : ∀ bound ∈ list, AtLeast bound number) : AtLeast (some greatest) number := by
  unfold maximum at run
  split at run
  · rename_i someAbove
    have := low _ (contains_iff_mem.1 someAbove)
    simp [AtLeast, finite, Numeral.toInt] at this
  · split at run
    · cases run
      trivial
    · rw [bind_eq_ok] at run
      rcases run with ⟨_, finiteRun, run⟩
      split at run
      · rename_i largest isGreatest
        cases run
        rcases finiteOnes_mem finiteRun ((max?_eq_some_iff).1 isGreatest).1 with
          ⟨bound, member, known⟩
        rcases atLeast_cases (low bound member) with rfl | ⟨n, same, below⟩
        · simp [finite, Numeral.toInt] at known
        · rw [known] at same
          cases same
          exact atLeast_of_finite rfl below
      · cases run
        trivial

/-! ## Congruences -/

/-- A modulus as an integer, where an infinite one counts as zero. -/
def divisorOf (bound : Bound) : Checked Int :=
  (·.getD 0) <$> finiteModulus? bound

theorem divisorOf_infinity : divisorOf (some .infinity) = .ok 0 :=
  rfl

theorem divisorOf_of_ne (bounded : bound ≠ some .infinity) : divisorOf bound = finite bound := by
  have unfolded : finiteModulus? bound = (finite bound >>= fun n => pure (some n)) := by
    unfold finiteModulus?
    split
    · contradiction
    · rfl
  rw [divisorOf, unfolded]
  cases finite bound <;> rfl

/-- A number read as a modulus and as an integer is the same. -/
theorem divisorOf_of_finite (known : finite bound = .ok n) : divisorOf bound = .ok n := by
  rwa [divisorOf_of_ne]
  rintro rfl
  simp [finite, Numeral.toInt] at known

theorem divisorOf_of_toInt (known : modulus.toInt = .ok m) : divisorOf (some modulus) = .ok m :=
  divisorOf_of_finite known

theorem divisorOf_int (n : Int) : divisorOf (some (.int n)) = .ok n :=
  rfl

theorem Congruence.holds_iff :
    c.Holds number ↔
      ∃ m r, divisorOf c.modulus = .ok m ∧ finite c.remainder = .ok r ∧ m ∣ number - r := by
  unfold Congruence.Holds
  split
  · rename_i unbounded
    rw [unbounded, divisorOf_infinity]
    constructor
    · intro known
      exact ⟨0, number, rfl, known, by simp⟩
    · rintro ⟨m, r, zero, known, divides⟩
      cases zero
      rw [known, sub_eq_zero.1 (zero_dvd_iff.1 divides)]
  · rename_i bounded
    rw [divisorOf_of_ne bounded]

/-- The greatest common divisor of two moduli is that of the integers they are read as. -/
theorem gcd_eq_ok {common : Numeral} (run : gcd a b = .ok common) :
    ∃ m n, divisorOf a = .ok m ∧ divisorOf b = .ok n ∧ 0 ≤ m ∧ 0 ≤ n ∧
      divisorOf (some common) = .ok (Int.gcd m n) := by
  simp only [gcd, bind_eq_ok, Failure.ensure_eq_ok, decide_eq_true_eq, pure_eq_ok] at run
  rcases run with ⟨m, left, n, right, _, mNonneg, _, nNonneg, equal⟩
  refine ⟨m.getD 0, n.getD 0, ?_, ?_, mNonneg, nNonneg, ?_⟩
  · rw [divisorOf, left]
    rfl
  · rw [divisorOf, right]
    rfl
  · subst equal
    split
    · rename_i zero
      rw [zero, divisorOf_infinity]
      rfl
    · rw [divisorOf_int]

theorem Congruence.holds_of_dvd {remainder : Numeral}
    (modulusKnown : divisorOf (some modulus) = .ok m)
    (remainderKnown : finite (some remainder) = .ok r) (divides : m ∣ number - r) :
    Congruence.Holds ⟨some modulus, some remainder⟩ number :=
  Congruence.holds_iff.2 ⟨m, r, modulusKnown, remainderKnown, divides⟩

theorem dvd_sub_fmod (divides : m ∣ number - n) : m ∣ number - n.fmod m := by
  have split : number - n.fmod m = (number - n) + m * n.fdiv m := by
    have := Int.fmod_add_mul_fdiv n m
    linarith
  rw [split]
  exact Int.dvd_add divides (dvd_mul_right m _)

theorem remainderBy_eq_ok {d : Int} (run : remainderBy n d = .ok r) : d ≠ 0 ∧ r = n.fmod d := by
  unfold remainderBy at run
  split at run
  · cases run
  · rename_i nonzero
    rw [pure_eq_ok] at run
    exact ⟨nonzero, run.symm⟩

namespace Congruence

variable {left right joined result : Congruence} {number x y : Int}

theorem join_eq_ok (run : left.join right = .ok joined) :
    ∃ g t, divisorOf joined.modulus = .ok g ∧ finite joined.remainder = .ok t ∧
      ∀ c ∈ [left, right], ∃ m r, divisorOf c.modulus = .ok m ∧ finite c.remainder = .ok r ∧
        g ∣ m ∧ g ∣ r - t := by
  rw [join, bind_eq_ok] at run
  rcases run with ⟨_, commonRun, run⟩
  rw [bind_eq_ok] at run
  rcases run with ⟨r, leftKnown, run⟩
  rw [bind_eq_ok] at run
  rcases run with ⟨s, rightKnown, run⟩
  rw [bind_eq_ok] at run
  rcases run with ⟨modulus, modulusRun, run⟩
  rcases gcd_eq_ok commonRun with ⟨m, n, leftModulus, rightModulus, _, _, commonKnown⟩
  rcases gcd_eq_ok modulusRun with ⟨c, d, commonAgain, distance, _, _, modulusKnown⟩
  cases commonKnown.symm.trans commonAgain
  cases (divisorOf_int _).symm.trans distance
  have dvdCommon : (Int.gcd (Int.gcd m n) (r - s).natAbs : Int) ∣ Int.gcd m n :=
    Int.gcd_dvd_left ..
  have dvdDistance : (Int.gcd (Int.gcd m n) (r - s).natAbs : Int) ∣ r - s :=
    (Int.gcd_dvd_right ..).trans (Int.natAbs_dvd.2 dvd_rfl)
  generalize (Int.gcd (Int.gcd m n) (r - s).natAbs : Int) = g at modulusKnown dvdCommon dvdDistance
  have both {t : Int} (dvd : g ∣ r - t) : ∀ c ∈ [left, right], ∃ m r, divisorOf c.modulus = .ok m ∧
      finite c.remainder = .ok r ∧ g ∣ m ∧ g ∣ r - t := by
    simp only [forall_mem_cons, not_mem_nil, false_implies, implies_true, and_true]
    refine ⟨⟨m, r, leftModulus, leftKnown, dvdCommon.trans (Int.gcd_dvd_left ..), dvd⟩,
      n, s, rightModulus, rightKnown, dvdCommon.trans (Int.gcd_dvd_right ..), ?_⟩
    rw [show s - t = r - t - (r - s) by ring]
    exact Int.dvd_sub dvd dvdDistance
  split at run
  · simp only [bind_eq_ok, pure_eq_ok] at run
    rcases run with ⟨_, _, _, _, rfl⟩
    exact ⟨_, r, modulusKnown, leftKnown, both (by simp)⟩
  · simp only [bind_eq_ok, pure_eq_ok] at run
    rcases run with ⟨g, gKnown, r', same, t, tRun, _, _, _, _, _, _, rfl⟩
    cases leftKnown.symm.trans same
    cases (divisorOf_of_toInt gKnown).symm.trans modulusKnown
    rcases remainderBy_eq_ok tRun with ⟨_, rfl⟩
    exact ⟨_, _, modulusKnown, rfl, both (dvd_sub_fmod (by simp))⟩

theorem join_holds (run : left.join right = .ok joined) (member : c ∈ [left, right])
    (holds : c.Holds number) : joined.Holds number := by
  rcases join_eq_ok run with ⟨g, t, joinedModulus, tKnown, each⟩
  rcases each c member with ⟨m, r, modulusKnown, remainderKnown, gm, gt⟩
  rcases holds_iff.1 holds with ⟨m', r', sameModulus, sameRemainder, divides⟩
  cases modulusKnown.symm.trans sameModulus
  cases remainderKnown.symm.trans sameRemainder
  refine holds_iff.2 ⟨g, t, joinedModulus, tKnown, ?_⟩
  rw [show number - t = (number - r) + (r - t) by ring]
  exact Int.dvd_add (gm.trans divides) gt

theorem scale_holds {constant varying scaled : Congruence}
    (run : scale constant varying = .ok scaled) (known : finite constant.remainder = .ok x)
    (holds : varying.Holds y) : scaled.Holds (x * y) := by
  rw [scale, known, bind_eq_ok] at run
  rcases run with ⟨_, ⟨⟩, run⟩
  split at run
  · rename_i zero
    cases run
    simp [Holds, zero]
  · simp only [bind_eq_ok, pure_eq_ok] at run
    rcases run with ⟨m, modulusKnown, r, remainderKnown, _, reduced, rfl⟩
    rcases remainderBy_eq_ok reduced with ⟨_, rfl⟩
    rcases holds_iff.1 holds with ⟨_, _, sameModulus, sameRemainder, divides⟩
    cases (divisorOf_of_finite modulusKnown).symm.trans sameModulus
    cases remainderKnown.symm.trans sameRemainder
    refine holds_of_dvd (divisorOf_int _) rfl (dvd_sub_fmod ?_)
    rw [show x * y - r * x = (y - r) * x by ring]
    exact Int.mul_dvd_mul divides (Int.natAbs_dvd.2 dvd_rfl)

/-- A congruence taken apart: its modulus and its remainder are multiples of the content. -/
theorem content_eq_ok {d q : Int} (run : c.content = .ok (d, q)) :
    ∃ r, divisorOf c.modulus = .ok (d * q) ∧ finite c.remainder = .ok r ∧ d ∣ r := by
  rw [content, bind_eq_ok] at run
  rcases run with ⟨divisor, divisorRun, run⟩
  split at run
  · simp at run
  · simp only [bind_eq_ok, pure_eq_ok, Failure.ensure_eq_ok, beq_iff_eq, Prod.mk.injEq] at run
    rcases run with ⟨d, dKnown, m, mKnown, _, exactly, r, rKnown, rfl, rfl⟩
    rcases gcd_eq_ok divisorRun with ⟨m', r', _, remainderKnown, _, _, gcdKnown⟩
    cases (divisorOf_of_toInt dKnown).symm.trans gcdKnown
    cases (divisorOf_of_finite rKnown).symm.trans remainderKnown
    refine ⟨r, ?_, rKnown, Int.gcd_dvd_right ..⟩
    rw [divisorOf_of_finite mKnown, Int.mul_fdiv_cancel' (Int.dvd_of_fmod_eq_zero exactly)]

theorem product_holds (run : product [left, right] = .ok result) (xHolds : left.Holds x)
    (yHolds : right.Holds y) : result.Holds (x * y) := by
  rw [product, bind_eq_ok] at run
  rcases run with ⟨contents, contentsRun, run⟩
  rw [mapM_eq_ok] at contentsRun
  obtain ⟨d, q, e, u, rfl, leftContent, rightContent⟩ : ∃ d q e u,
      contents = [(d, q), (e, u)] ∧ left.content = .ok (d, q) ∧ right.content = .ok (e, u) := by
    rcases contentsRun with _ | ⟨leftContent, _ | ⟨rightContent, _ | _⟩⟩
    exact ⟨_, _, _, _, rfl, leftContent, rightContent⟩
  simp only [map_cons, map_nil, bind_eq_ok, Failure.element_eq_ok,
    getElem?_cons_zero, getElem?_cons_succ, Option.some.injEq] at run
  rcases run with ⟨_, rfl, _, rfl, shared, sharedRun, run⟩
  split at run
  · simp at run
  · simp only [bind_eq_ok, pure_eq_ok] at run
    rcases run with ⟨g, gKnown, remainders, remaindersRun, _, reduced, rfl⟩
    rcases remainderBy_eq_ok reduced with ⟨_, rfl⟩
    rcases content_eq_ok leftContent with ⟨r, mKnown, rKnown, a, rfl⟩
    rcases content_eq_ok rightContent with ⟨s, nKnown, sKnown, b, rfl⟩
    rw [mapM_eq_ok] at remaindersRun
    rcases remaindersRun with _ | ⟨leftRemainder, _ | ⟨rightRemainder, _ | _⟩⟩
    cases rKnown.symm.trans leftRemainder
    cases sKnown.symm.trans rightRemainder
    rcases gcd_eq_ok sharedRun with ⟨_, _, ⟨⟩, ⟨⟩, _, _, gcdKnown⟩
    cases (divisorOf_of_toInt gKnown).symm.trans gcdKnown
    rcases holds_iff.1 xHolds with ⟨_, _, sameModulus, sameRemainder, j, xSplit⟩
    cases mKnown.symm.trans sameModulus
    cases rKnown.symm.trans sameRemainder
    rcases holds_iff.1 yHolds with ⟨_, _, sameModulus, sameRemainder, k, ySplit⟩
    cases nKnown.symm.trans sameModulus
    cases sKnown.symm.trans sameRemainder
    refine holds_of_dvd (divisorOf_int _) rfl (dvd_sub_fmod ?_)
    -- each summand of the difference holds both contents and one of the quotients
    have isDivisor : (Int.gcd q u : Int) ∣ q * (j * (b + u * k)) + u * (a * k) :=
      Int.dvd_add ((Int.gcd_dvd_left ..).mul_right _) ((Int.gcd_dvd_right ..).mul_right _)
    have split : x * y - 1 * (d * a) * (e * b) =
        (q * (j * (b + u * k)) + u * (a * k)) * d * e := by
      rw [eq_add_of_sub_eq xSplit, eq_add_of_sub_eq ySplit]
      ring
    simp only [foldl_cons, foldl_nil, split]
    exact mul_dvd_mul_right (mul_dvd_mul_right isDivisor d) e

theorem mul_eq (left right : Congruence) :
    left.mul right [] =
      if left.modulus = some .infinity then
        if right.modulus = some .infinity then do
          let value := (← finite left.remainder) * (← finite right.remainder)
          return ⟨some .infinity, some (.int value)⟩
        else scale left right
      else if right.modulus = some .infinity then scale right left
      else product [left, right] := by
  by_cases leftConstant : left.modulus = some .infinity <;>
    by_cases rightConstant : right.modulus = some .infinity <;>
    simp [mul, leftConstant, rightConstant]

theorem mul_holds (run : left.mul right [] = .ok result) (xHolds : left.Holds x)
    (yHolds : right.Holds y) : result.Holds (x * y) := by
  rw [mul_eq] at run
  split at run
  · rename_i leftConstant
    rw [Holds, if_pos leftConstant] at xHolds
    split at run
    · rename_i rightConstant
      rw [Holds, if_pos rightConstant] at yHolds
      rw [xHolds, yHolds] at run
      cases run
      simp [Holds]
    · exact scale_holds run xHolds yHolds
  · split at run
    · rename_i rightConstant
      rw [Holds, if_pos rightConstant] at yHolds
      rw [mul_comm]
      exact scale_holds run yHolds xHolds
    · exact product_holds run xHolds yHolds

end Congruence

end BinaryLayout.Bounds
