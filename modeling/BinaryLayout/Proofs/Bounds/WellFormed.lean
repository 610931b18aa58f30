import Mathlib
import BinaryLayout.Proofs.Bounds.Transfer

/-!
# Well-formed bounds

Bounds are well formed if they are those of a single value, or of the values of a residue class
between two ends: an end is infinite or belongs to the class, and the lower one is below the upper.

Main statement: sums, differences, products, choices and largest elements of integers with
well-formed bounds have well-formed bounds, and computing them does not fail.

Each operation on residue classes is shown to succeed.  That the ends of the result belong to its
class then follows from the soundness of the operation, since an end of the result is reached at
values that the arguments can have.
-/

namespace BinaryLayout.Bounds

open IR Checked List

variable {c left right : Congruence} {low high : Numeral} {t l r : IntegerType}
  {x y : Int} {m n : Nat}

/-- The lower or the upper end of some bounds. -/
def ending (upper : Bool) (t : IntegerType) : Bound :=
  if upper then t.maximum else t.minimum

/-- The infinity that a lower or an upper end can be. -/
def unbounded (upper : Bool) : Numeral :=
  if upper then .infinity else .negInfinity

/-- The bounds of a single value, or of a residue class between two ends. -/
inductive WellFormed : IntegerType → Prop
  | single (n : Int) : WellFormed (singleton (some (.int n)))
  | range {t : IntegerType} {m r : Int} (modulus : t.modulus = some (.int m))
      (remainder : t.modularValue = some (.int r)) (nonneg : 0 ≤ r) (reduced : r < m)
      (isEnd : ∀ upper, ending upper t = some (unbounded upper) ∨
        ∃ k, ending upper t = some (.int k) ∧ k % m = r)
      (lt : ∀ i j, t.minimum = some (.int i) → t.maximum = some (.int j) → i < j) : WellFormed t

theorem WellFormed.consistent (wellFormed : WellFormed t) : checkConsistent t = .ok () := by
  cases wellFormed with
  | single => simp [checkConsistent, singleton, bind, Except.bind]
  | @range _ m r modulus remainder nonneg reduced isEnd lt =>
    have pos : 0 < m := by omega
    have inClass {k : Int} (congruent : k % m = r) : (k.emod m == r) = true :=
      beq_iff_eq.2 congruent
    rcases t with ⟨_, _, low, high⟩
    cases modulus
    cases remainder
    rcases isEnd false with isLow | ⟨i, isLow, low⟩ <;>
      rcases isEnd true with isHigh | ⟨j, isHigh, high⟩ <;> cases isLow <;> cases isHigh
    · simp [checkConsistent, Failure.ensure, bind, Except.bind, pure, Except.pure, pos, unbounded]
    · simp [checkConsistent, Failure.ensure, bind, Except.bind, pure, Except.pure, pos, unbounded,
        inClass high]
    · simp [checkConsistent, Failure.ensure, bind, Except.bind, pure, Except.pure, pos, unbounded,
        inClass low]
    · simp [checkConsistent, Failure.ensure, bind, Except.bind, pos, inClass low, inClass high,
        (lt i j rfl rfl).ne, (lt i j rfl rfl).le]

/-! ## Residue classes -/

/-- A modulus, where zero stands for infinity. -/
def modulus (m : Nat) : Numeral :=
  if m = 0 then .infinity else .int m

/-- The class of the numbers with a remainder; there is only one such number modulo zero. -/
def classOf (m : Nat) (r : Int) : Congruence :=
  ⟨some (modulus m), some (.int (r % m))⟩

theorem modulus_pos (pos : 0 < m) : modulus m = .int m :=
  if_neg pos.ne'

theorem classOf_pos {r : Int} (pos : 0 < m) :
    classOf m r = ⟨some (.int m), some (.int (r % m))⟩ := by
  rw [classOf, modulus_pos pos]

theorem divisorOf_modulus (m : Nat) : divisorOf (some (modulus m)) = .ok m := by
  rcases Nat.eq_zero_or_pos m with rfl | pos
  · rfl
  · rw [modulus_pos pos, divisorOf_int]

theorem holds_classOf {r : Int} : (classOf m r).Holds x ↔ r ≡ x [ZMOD m] := by
  rw [Congruence.holds_iff]
  constructor
  · rintro ⟨_, _, isDivisor, isRemainder, divides⟩
    cases (divisorOf_modulus m).symm.trans isDivisor
    cases isRemainder
    exact (Int.mod_modEq r m).symm.trans (Int.modEq_iff_dvd.2 divides)
  · intro same
    exact ⟨m, r % m, divisorOf_modulus m, rfl, Int.modEq_iff_dvd.1 ((Int.mod_modEq r m).trans same)⟩

/-- The greatest common divisor of two moduli, as integers. -/
theorem gcd_of_divisorOf {a b : Bound} {m n : Int} (left : divisorOf a = .ok m)
    (right : divisorOf b = .ok n) (mNonneg : 0 ≤ m) (nNonneg : 0 ≤ n) :
    gcd a b = .ok (modulus (Int.gcd m n)) := by
  rw [divisorOf, map_eq_ok] at left right
  rcases left with ⟨m, leftRun, rfl⟩
  rcases right with ⟨n, rightRun, rfl⟩
  simp [gcd, leftRun, rightRun, mNonneg, nNonneg, modulus, bind, Except.bind, pure, Except.pure]

theorem gcd_modulus (m n : Nat) :
    gcd (some (modulus m)) (some (modulus n)) = .ok (modulus (m.gcd n)) :=
  gcd_of_divisorOf (divisorOf_modulus m) (divisorOf_modulus n) (by simp) (by simp)

theorem remainderBy_of_pos (k : Int) (pos : 0 < m) : remainderBy k m = .ok (k % m) := by
  rw [remainderBy, if_neg (by omega), Int.fmod_eq_emod_of_nonneg _ (by omega)]
  rfl

theorem reduce_modulus (k : Int) (m : Nat) : reduce (.int k) (modulus m) = .ok (.int (k % m)) := by
  rcases Nat.eq_zero_or_pos m with rfl | pos
  · simp [modulus, reduce]
  · simp [modulus_pos pos, reduce, Numeral.toInt, remainderBy_of_pos k pos, bind, Except.bind, pure,
      Except.pure]

/-- A class is within another if the other has all of its numbers. -/
def Congruence.Within (c d : Congruence) : Prop :=
  ∀ x, c.Holds x → d.Holds x

theorem within_classOf {j : Nat} {r s : Int} :
    (classOf m r).Within (classOf j s) ↔ j ∣ m ∧ s ≡ r [ZMOD j] := by
  constructor
  · intro within
    have first := holds_classOf.1 (within r (holds_classOf.2 rfl))
    have second := holds_classOf.1 (within (r + m) (holds_classOf.2 (by simp)))
    exact ⟨Int.natCast_dvd_natCast.1 (by simpa using (first.symm.trans second).dvd), first⟩
  · rintro ⟨divides, same⟩ x holds
    exact holds_classOf.2
      (same.trans ((holds_classOf.1 holds).of_dvd (Int.natCast_dvd_natCast.2 divides)))

/-- The modulus of a join divides both moduli and the distance of two numbers of the classes. -/
theorem join_classOf (m n : Nat) (r s : Int) :
    (classOf m r).join (classOf n s) = .ok (classOf (Int.gcd (m.gcd n) (r - s)) r) := by
  have common := gcd_of_divisorOf (divisorOf_modulus (m.gcd n))
    (divisorOf_int (r % m - s % n).natAbs) (by simp) (by simp)
  have near : r % m - s % n ≡ r - s [ZMOD m.gcd n] :=
    ((Int.mod_modEq r m).of_dvd (Int.natCast_dvd_natCast.2 (m.gcd_dvd_left n))).sub
      ((Int.mod_modEq s n).of_dvd (Int.natCast_dvd_natCast.2 (m.gcd_dvd_right n)))
  have same : Int.gcd (m.gcd n) (r % m - s % n) = Int.gcd (m.gcd n) (r - s) := by
    rw [Int.gcd_comm, ← Int.gcd_emod, near.eq, Int.gcd_emod, Int.gcd_comm]
  rw [Int.gcd_natCast_natCast, show (m.gcd n).gcd (r % m - s % n).natAbs = _ from same] at common
  simp only [Congruence.join, classOf, gcd_modulus, finite_int, bind, Except.bind, common]
  rcases Nat.eq_zero_or_pos (Int.gcd (m.gcd n) (r - s)) with zero | pos
  · rcases Int.gcd_eq_zero_iff.1 zero with ⟨moduli, distance⟩
    rcases Nat.gcd_eq_zero_iff.1 (Int.natCast_eq_zero.1 moduli) with ⟨rfl, rfl⟩
    obtain rfl : r = s := sub_eq_zero.1 distance
    simp [modulus, pure, Except.pure]
  · have moduli := Int.gcd_dvd_left (m.gcd n) (r - s)
    have equal : r % (Int.gcd (m.gcd n) (r - s)) = s % (Int.gcd (m.gcd n) (r - s)) :=
      (Int.modEq_iff_dvd.2 (Int.gcd_dvd_right ..)).symm
    have left : r % m % (Int.gcd (m.gcd n) (r - s)) = _ := Int.emod_emod_of_dvd r
      (moduli.trans (Int.natCast_dvd_natCast.2 (m.gcd_dvd_left n)))
    have right : s % n % (Int.gcd (m.gcd n) (r - s)) = _ := Int.emod_emod_of_dvd s
      (moduli.trans (Int.natCast_dvd_natCast.2 (m.gcd_dvd_right n)))
    simp [modulus_pos pos, Numeral.toInt, remainderBy_of_pos _ pos, Failure.ensure, pure,
      Except.pure, left, right, equal]

theorem join_within_iff {j : Nat} {r s v : Int} :
    (classOf (Int.gcd (m.gcd n) (r - s)) r).Within (classOf j v) ↔
      (classOf m r).Within (classOf j v) ∧ (classOf n s).Within (classOf j v) := by
  rw [within_classOf, within_classOf, within_classOf, ← Int.natCast_dvd_natCast,
    Int.dvd_coe_gcd_iff, Int.natCast_dvd_natCast, Nat.dvd_gcd_iff]
  constructor
  · rintro ⟨⟨⟨onLeft, onRight⟩, distance⟩, same⟩
    exact ⟨⟨onLeft, same⟩, onRight, same.trans (Int.modEq_iff_dvd.2 distance).symm⟩
  · rintro ⟨⟨onLeft, same⟩, onRight, same'⟩
    exact ⟨⟨⟨onLeft, onRight⟩, (same'.symm.trans same).dvd⟩, same⟩

/-- What divides all numbers of a class, and the modulus divided by it. -/
theorem content_classOf (r : Int) (pos : 0 < m) :
    ∃ q : Nat, Int.gcd m r * q = m ∧ (classOf m r).content = .ok (Int.gcd m r, q) := by
  have run := gcd_of_divisorOf (divisorOf_modulus m) (divisorOf_int (r % m)) (by omega)
    (Int.emod_nonneg r (by omega))
  have dPos : 0 < Int.gcd m r := Int.gcd_pos_of_ne_zero_left _ (by omega)
  have dvd : Int.gcd m r ∣ m := Int.natCast_dvd_natCast.1 (Int.gcd_dvd_left ..)
  rw [Int.gcd_comm, Int.gcd_emod, Int.gcd_comm, modulus_pos dPos] at run
  generalize Int.gcd m r = d at run dPos dvd
  refine ⟨m / d, Nat.mul_div_cancel' dvd, ?_⟩
  have exactly : (m : Int).fmod d = 0 := Int.fmod_eq_zero_of_dvd (Int.natCast_dvd_natCast.2 dvd)
  rw [Congruence.content]
  refine bind_eq_ok.2 ⟨_, run, bind_eq_ok.2 ⟨d, rfl, bind_eq_ok.2 ⟨m, ?_, ?_⟩⟩⟩
  · rw [classOf_pos pos, finite_int]
  · simp [classOf, exactly, Int.fdiv_eq_ediv_of_nonneg, bind_eq_ok]

theorem product_classOf (r s : Int) (mPos : 0 < m) (nPos : 0 < n) :
    Congruence.product [classOf m r, classOf n s] =
      .ok (classOf ((m * Int.gcd n s).gcd (n * Int.gcd m r)) (r % m * (s % n))) := by
  rcases content_classOf r mPos with ⟨q, isLeft, first⟩
  rcases content_classOf s nPos with ⟨u, isRight, second⟩
  generalize Int.gcd m r = d at isLeft first ⊢
  generalize Int.gcd n s = e at isRight second ⊢
  have isShared : (m * e).gcd (n * d) = q.gcd u * d * e := by
    rw [← isLeft, ← isRight, show d * q * e = q * (d * e) by ring,
      show e * u * d = u * (d * e) by ring, Nat.gcd_mul_right, mul_assoc]
  have pos : 0 < (m * e).gcd (n * d) := Nat.gcd_pos_of_pos_left _
    (Nat.mul_pos mPos (Nat.pos_of_mul_pos_right (isRight ▸ nPos)))
  have shared := gcd_of_divisorOf (divisorOf_int q) (divisorOf_int u) (by omega) (by omega)
  have reduced := remainderBy_of_pos (1 * (r % m) * (s % n)) pos
  rw [Int.gcd_natCast_natCast, modulus_pos (by_contra fun zero => by simp_all)] at shared
  rw [classOf_pos pos, Congruence.product]
  rw [isShared] at reduced ⊢
  push_cast at reduced ⊢
  refine bind_eq_ok.2 ⟨[(d, q), (e, u)], mapM_eq_ok.2 (.cons first (.cons second .nil)), ?_⟩
  refine bind_eq_ok.2 ⟨q, rfl, bind_eq_ok.2 ⟨u, rfl, bind_eq_ok.2 ⟨_, shared, ?_⟩⟩⟩
  rw [← one_mul (r % m)]
  exact bind_eq_ok.2 ⟨_, rfl, bind_eq_ok.2 ⟨[r % m, s % n], rfl, bind_eq_ok.2 ⟨_, reduced, rfl⟩⟩⟩

theorem scale_classOf (constant r : Int) (pos : 0 < m) :
    Congruence.scale (classOf 0 constant) (classOf m r) =
      .ok (classOf (m * constant.natAbs) (r % m * constant)) := by
  by_cases zero : constant = 0
  · simp [zero, classOf, Congruence.scale, modulus, bind, Except.bind, pure, Except.pure]
  · have scaled : 0 < m * constant.natAbs := by positivity
    have reduced := remainderBy_of_pos (r % m * constant) scaled
    rw [classOf_pos scaled, Congruence.scale]
    refine bind_eq_ok.2 ⟨constant, by simp [classOf], ?_⟩
    rw [if_neg zero]
    refine bind_eq_ok.2 ⟨m, by rw [classOf_pos pos, finite_int], ?_⟩
    exact bind_eq_ok.2 ⟨r % m, rfl, bind_eq_ok.2 ⟨_, reduced, rfl⟩⟩

/-- The modulus of a product is the greatest number that divides each modulus times the other
class. -/
theorem mul_classOf (m n : Nat) (r s : Int) :
    (classOf m r).mul (classOf n s) [] =
      .ok (classOf ((m * Int.gcd n s).gcd (n * Int.gcd m r)) (r % m * (s % n))) := by
  have infinite (m : Nat) (r : Int) : (classOf m r).modulus = some .infinity ↔ m = 0 := by
    rcases Nat.eq_zero_or_pos m with rfl | pos
    · simp [classOf, modulus]
    · simp [classOf, modulus_pos pos, pos.ne']
  simp only [Congruence.mul_eq, infinite]
  rcases Nat.eq_zero_or_pos m with rfl | mPos <;> rcases Nat.eq_zero_or_pos n with rfl | nPos
  · simp [classOf, modulus, bind, Except.bind, pure, Except.pure]
  · simp [nPos.ne', scale_classOf r s nPos, mul_comm]
  · simp [mPos.ne', scale_classOf s r mPos]
  · simp [mPos.ne', nPos.ne', product_classOf r s mPos nPos]

/-! ## Ends -/

/-- The ends of the numbers of a class are infinite or belong to it, and they are the same if the
class has a single number. -/
structure Ends (t : IntegerType) (m : Nat) (s : Int) : Prop where
  isClass : congruenceOf t = classOf m s
  isEnd (upper : Bool) : ending upper t = some (unbounded upper) ∨
    ∃ k, ending upper t = some (.int k) ∧ (congruenceOf t).Holds k
  inhabited : ∃ v, AtLeast t.minimum v ∧ AtMost t.maximum v
  single : m = 0 ↔ t.minimum = t.maximum

theorem AtMost.mono {bound : Bound} (high : AtMost bound y) (le : x ≤ y) : AtMost bound x := by
  rcases atMost_cases high with rfl | ⟨k, known, above⟩
  · trivial
  · exact atMost_of_finite known (le.trans above)

section Ends

variable {s : Int} {upper : Bool}

theorem Ends.holds (ends : Ends t m s) (isEnd : ending upper t = some (.int x)) :
    (congruenceOf t).Holds x := by
  rcases ends.isEnd upper with infinite | ⟨_, again, holds⟩
  · cases upper <;> cases isEnd.symm.trans infinite
  · cases isEnd.symm.trans again
    exact holds

theorem Ends.bounded (ends : Ends t m s) (isEnd : ending upper t = some (.int x)) :
    Bounded t x := by
  have holds := ends.holds isEnd
  rcases ends.inhabited with ⟨v, above, below⟩
  cases upper with
  | true =>
    change t.maximum = _ at isEnd
    have known : finite t.maximum = .ok x := by rw [isEnd]; rfl
    exact ⟨above.mono (le_of_atMost known below), atMost_of_finite known le_rfl, holds⟩
  | false =>
    change t.minimum = _ at isEnd
    have known : finite t.minimum = .ok x := by rw [isEnd]; rfl
    exact ⟨atLeast_of_finite known le_rfl, below.mono (le_of_atLeast known above), holds⟩

theorem Ends.eq_singleton (ends : Ends t 0 s) : t = singleton (some (.int s)) := by
  have same := ends.single.1 rfl
  rcases t with ⟨_, _, low, high⟩
  rcases ends.isEnd false with infinite | ⟨k, isLow, holds⟩
  · rcases ends.isEnd true with again | ⟨_, again, _⟩ <;>
      cases (infinite.symm.trans same).trans again
  · cases ends.isClass
    cases same
    cases isLow
    obtain rfl : s = k := by simpa [Int.ModEq] using holds_classOf.1 holds
    simp [singleton, modulus]

theorem Ends.exists_value (ends : Ends t m s) : ∃ v, Bounded t v := by
  rcases ends.isEnd false with low | ⟨i, isLow, _⟩
  · rcases ends.isEnd true with high | ⟨j, isHigh, _⟩
    · change t.minimum = _ at low
      change t.maximum = _ at high
      exact ⟨s, by rw [low]; trivial, by rw [high]; trivial, ends.isClass ▸ holds_classOf.2 rfl⟩
    · exact ⟨j, ends.bounded isHigh⟩
  · exact ⟨i, ends.bounded isLow⟩

/-- Unless the class has a single number, there are two of its numbers between the ends. -/
theorem Ends.exists_two (ends : Ends t m s) (several : m ≠ 0) :
    ∃ v w, v ≠ w ∧ Bounded t v ∧ Bounded t w := by
  rcases ends.exists_value with ⟨v, bounded⟩
  have near := holds_classOf.1 (ends.isClass ▸ bounded.congruent)
  rcases ends.isEnd false with low | ⟨i, isLow, _⟩
  · change t.minimum = _ at low
    refine ⟨v, v - m, by omega, bounded, by rw [low]; trivial, bounded.high.mono (by omega), ?_⟩
    exact ends.isClass ▸ holds_classOf.2 (near.trans (by simp))
  · rcases ends.isEnd true with high | ⟨j, isHigh, _⟩
    · change t.maximum = _ at high
      refine ⟨v, v + m, by omega, bounded, bounded.low.mono (by omega), by rw [high]; trivial, ?_⟩
      exact ends.isClass ▸ holds_classOf.2 (near.trans (by simp))
    · refine ⟨i, j, ?_, ends.bounded isLow, ends.bounded isHigh⟩
      rintro rfl
      exact several (ends.single.2 (isLow.trans isHigh.symm))

end Ends

theorem minimum_ne_maximum (first : Bounded t x) (second : Bounded t y) (unequal : x ≠ y) :
    t.minimum ≠ t.maximum := by
  intro same
  exact unequal (Except.ok.inj ((finite_of_atLeast_atMost (same ▸ first.low) first.high).symm.trans
    (finite_of_atLeast_atMost (same ▸ second.low) second.high)))

theorem wellFormed_iff : WellFormed t ↔ ∃ m s, Ends t m s := by
  constructor
  · rintro (⟨k⟩ | @⟨_, m, s, modulus, remainder, nonneg, reduced, isEnd, lt⟩)
    · have bounded : Bounded (singleton (some (.int k))) k := singleton_bounded rfl
      refine ⟨0, k, by simp [congruenceOf, classOf, Bounds.modulus, singleton], fun upper => ?_,
        ⟨k, bounded.low, bounded.high⟩, by simp [singleton]⟩
      cases upper <;> exact .inr ⟨k, rfl, bounded.congruent⟩
    · obtain ⟨m, rfl⟩ := Int.eq_ofNat_of_zero_le (show 0 ≤ m by omega)
      have same : s % m = s := Int.emod_eq_of_lt nonneg reduced
      have isClass : congruenceOf t = classOf m s := by
        rw [classOf_pos (by omega), same, congruenceOf, modulus, remainder]
      refine ⟨m, s, isClass, fun upper => (isEnd upper).imp_right ?_, ?_, ?_⟩
      · rintro ⟨k, isInt, congruent⟩
        exact ⟨k, isInt, isClass ▸ holds_classOf.2 (same.trans congruent.symm)⟩
      · rcases t with ⟨_, _, low, high⟩
        rcases isEnd false with isLow | ⟨i, isLow, _⟩ <;>
          rcases isEnd true with isHigh | ⟨j, isHigh, _⟩ <;> cases isLow <;> cases isHigh
        · exact ⟨0, trivial, trivial⟩
        · exact ⟨j, trivial, atMost_of_finite rfl le_rfl⟩
        · exact ⟨i, atLeast_of_finite rfl le_rfl, trivial⟩
        · exact ⟨i, atLeast_of_finite rfl le_rfl, atMost_of_finite rfl (lt i j rfl rfl).le⟩
      · refine ⟨fun zero => by omega, fun equal => ?_⟩
        rcases isEnd false with isLow | ⟨i, isLow, _⟩ <;>
          rcases isEnd true with isHigh | ⟨j, isHigh, _⟩ <;>
            cases (isLow.symm.trans equal).trans isHigh
        exact ((lt i i isLow isHigh).false).elim
  · rintro ⟨m, s, ends⟩
    rcases Nat.eq_zero_or_pos m with rfl | pos
    · rw [ends.eq_singleton]
      exact .single s
    · have isClass := ends.isClass
      rw [classOf_pos pos, congruenceOf, Congruence.mk.injEq] at isClass
      refine .range isClass.1 isClass.2 (Int.emod_nonneg s (by omega))
        (Int.emod_lt_of_pos s (by omega)) (fun upper => (ends.isEnd upper).imp_right ?_) ?_
      · rintro ⟨k, isInt, holds⟩
        exact ⟨k, isInt, (holds_classOf.1 (ends.isClass ▸ holds)).symm⟩
      · intro i j isLow isHigh
        have bounded : Bounded t i := ends.bounded (show ending false t = _ from isLow)
        have le : i ≤ j := le_of_atMost (by rw [isHigh]; rfl) bounded.high
        refine lt_of_le_of_ne le ?_
        rintro rfl
        exact pos.ne' (ends.single.2 (isLow.trans isHigh.symm))

/-! ## Sums and differences -/

section Arithmetic

variable {k : Nat} {v : Int} {operation : Int → Int → Int} {isSum upper : Bool} {a b : Bound}
  {left right : Expression} {own : IntegerType}

theorem wellFormed_of_reached (isClass : congruenceOf t = classOf k v)
    (sound : ∀ x y, Bounded l x → Bounded r y → Bounded t (operation x y))
    (reached : ∀ upper, ending upper t = some (unbounded upper) ∨
      ∃ x y, Bounded l x ∧ Bounded r y ∧ ending upper t = some (.int (operation x y)))
    (inhabited : ∃ x y, Bounded l x ∧ Bounded r y) (single : k = 0 → t.minimum = t.maximum)
    (several : k ≠ 0 → ∃ x y x' y', Bounded l x ∧ Bounded r y ∧ Bounded l x' ∧ Bounded r y' ∧
      operation x y ≠ operation x' y') : WellFormed t := by
  refine wellFormed_iff.2 ⟨k, v, isClass, fun upper => (reached upper).imp_right ?_, ?_, single,
    fun same => ?_⟩
  · rintro ⟨x, y, onLeft, onRight, isEnd⟩
    exact ⟨_, isEnd, (sound x y onLeft onRight).congruent⟩
  · rcases inhabited with ⟨x, y, onLeft, onRight⟩
    exact ⟨_, (sound x y onLeft onRight).low, (sound x y onLeft onRight).high⟩
  · by_contra nonzero
    rcases several nonzero with ⟨x, y, x', y', onLeft, onRight, onLeft', onRight', unequal⟩
    exact minimum_ne_maximum (sound x y onLeft onRight) (sound x' y' onLeft' onRight') unequal same

/-- An end of a sum is the sum of the same ends; a difference takes the other end of what is
subtracted. -/
theorem exists_additive_end (isSum : Bool)
    (first : a = some (unbounded upper) ∨ ∃ x, a = some (.int x))
    (second : b = some (unbounded (upper == isSum)) ∨ ∃ y, b = some (.int y)) :
    ∃ c, (if isSum then add else sub) a b = .ok c ∧ (c = unbounded upper ∨ ∃ x y,
      a = some (.int x) ∧ b = some (.int y) ∧ c = .int (if isSum then x + y else x - y)) := by
  rcases first with rfl | ⟨x, rfl⟩ <;> rcases second with rfl | ⟨y, rfl⟩ <;>
    cases upper <;> cases isSum <;> refine ⟨_, rfl, ?_⟩
  all_goals first
    | exact .inl rfl
    | exact .inr ⟨x, y, rfl, rfl, rfl⟩

theorem additive_wellFormed (leftType : left.type = some (.integer l))
    (rightType : right.type = some (.integer r)) (leftForm : WellFormed l)
    (rightForm : WellFormed r) :
    ∃ t, additive isSum (.integer own) [left, right] = .ok (.integer t) ∧ WellFormed t := by
  rcases wellFormed_iff.1 leftForm with ⟨m, i, leftEnds⟩
  rcases wellFormed_iff.1 rightForm with ⟨n, j, rightEnds⟩
  rcases leftEnds.exists_value with ⟨_, leftValue⟩
  rcases rightEnds.exists_value with ⟨_, rightValue⟩
  have exists_end (upper : Bool) := exists_additive_end (a := ending upper l)
    (b := ending (upper == isSum) r) isSum
    ((leftEnds.isEnd upper).imp_right fun ⟨x, isInt, _⟩ => ⟨x, isInt⟩)
    ((rightEnds.isEnd _).imp_right fun ⟨y, isInt, _⟩ => ⟨y, isInt⟩)
  choose result ran isResult using exists_end
  obtain ⟨value, valueRun⟩ : ∃ value, (if isSum then add else sub) (some (.int (i % m)))
      (some (.int (j % n))) = .ok (.int value) := by
    cases isSum <;> exact ⟨_, rfl⟩
  have leftClass := leftEnds.isClass
  have rightClass := rightEnds.isClass
  simp only [congruenceOf, classOf, Congruence.mk.injEq] at leftClass rightClass
  have run : additive isSum (.integer own) [left, right] =
      .ok (.integer ⟨some (modulus (m.gcd n)), some (.int (value % (m.gcd n : Nat))),
        some (result false), some (result true)⟩) := by
    simp only [additive, bind_eq_ok]
    refine ⟨⟨⟩, ?_, (left, right), rfl, _, boundsOf_eq_ok.2 leftType, _, boundsOf_eq_ok.2 rightType,
      (.int value, modulus (m.gcd n)), ?_, own, rfl, _, reduce_modulus _ _, result false, ?_,
      result true, ?_, rfl⟩
    · simp [boundsOf, leftType, rightType, integerOf, hasRemainder, leftClass, rightClass,
        Numeral.isEmpty, bind, Except.bind, pure, Except.pure]
    · rw [additiveCongruence, leftClass.1, leftClass.2, rightClass.1, rightClass.2]
      exact bind_eq_ok.2 ⟨_, valueRun, bind_eq_ok.2 ⟨_, gcd_modulus m n, rfl⟩⟩
    · cases isSum <;> exact ran false
    · cases isSum <;> exact ran true
  refine ⟨_, run, wellFormed_of_reached rfl (fun x y onLeft onRight =>
    additive_within run ⟨_, leftType, onLeft⟩ ⟨_, rightType, onRight⟩) (fun upper => ?_)
    ⟨_, _, leftValue, rightValue⟩ ?_ ?_⟩
  · refine (isResult upper).imp (fun infinite => ?_) ?_
    · rw [← infinite]
      cases upper <;> rfl
    · rintro ⟨x, y, isLeft, isRight, isInt⟩
      refine ⟨x, y, leftEnds.bounded isLeft, rightEnds.bounded isRight, ?_⟩
      rw [← isInt]
      cases upper <;> rfl
  · intro zero
    rcases Nat.gcd_eq_zero_iff.1 zero with ⟨rfl, rfl⟩
    cases leftEnds.eq_singleton
    cases rightEnds.eq_singleton
    have same : result false = result true := by
      cases isSum <;> exact Except.ok.inj ((ran false).symm.trans (ran true))
    rw [same]
  · intro nonzero
    by_cases single : m = 0
    · rcases rightEnds.exists_two (by rintro rfl; simp [single] at nonzero) with
        ⟨y, y', unequal, first, second⟩
      refine ⟨_, y, _, y', leftValue, first, leftValue, second, ?_⟩
      cases isSum <;> simpa using unequal
    · rcases leftEnds.exists_two single with ⟨x, x', unequal, first, second⟩
      refine ⟨x, _, x', _, first, rightValue, second, rightValue, ?_⟩
      cases isSum <;> simpa using unequal

end Arithmetic

/-! ## Extremes -/

section Extremes

variable {list : List Numeral}

theorem exists_finiteOnes (proper : ∀ text, .other text ∉ list) :
    ∃ numbers, finiteOnes (list.map some) = .ok numbers ∧ ∀ k, k ∈ numbers ↔ .int k ∈ list := by
  induction list with
  | nil => exact ⟨[], rfl, by simp⟩
  | cons head tail ih =>
    rcases ih fun text member => proper text (mem_cons_of_mem _ member) with
      ⟨numbers, run, isNumber⟩
    cases head with
    | int i =>
      refine ⟨i :: numbers, ?_, by simp [isNumber]⟩
      rw [finiteOnes, mapM_eq_ok] at run ⊢
      exact .cons rfl run
    | infinity | negInfinity => exact ⟨numbers, run, by simp [isNumber]⟩
    | other text => exact (proper text mem_cons_self).elim

/-- The largest of some bounds is one of them, and so is the smallest. -/
theorem exists_extreme (upper : Bool) (nonempty : list ≠ []) (proper : ∀ text, .other text ∉ list) :
    ∃ n ∈ list, (if upper then maximum else minimum) (list.map some) = .ok n := by
  rcases exists_finiteOnes proper with ⟨numbers, run, isNumber⟩
  have form : ∃ pick : List Int → Option Int,
      (∀ n, pick numbers = some n → n ∈ numbers) ∧ (pick numbers = none → numbers = []) ∧
      (if upper then maximum else minimum) (list.map some) =
        if unbounded upper ∈ list then .ok (unbounded upper)
        else if ∀ n ∈ list, n = unbounded (!upper) then .ok (unbounded !upper)
        else .ok (((pick numbers).map .int).getD (unbounded !upper)) := by
    cases upper with
    | true =>
      refine ⟨max?, fun n found => (max?_eq_some_iff.1 found).1, max?_eq_none_iff.1, ?_⟩
      simp [maximum, run, unbounded, bind, Except.bind, pure, Except.pure]
      cases numbers.max? <;> rfl
    | false =>
      refine ⟨min?, fun n found => (min?_eq_some_iff.1 found).1, min?_eq_none_iff.1, ?_⟩
      simp [minimum, run, unbounded, bind, Except.bind, pure, Except.pure]
      cases numbers.min? <;> rfl
  rcases form with ⟨pick, picks, misses, form⟩
  rw [form]
  split
  · exact ⟨_, by assumption, rfl⟩
  · split
    · rename_i same
      rcases exists_mem_of_ne_nil list nonempty with ⟨first, inList⟩
      exact ⟨_, same first inList ▸ inList, rfl⟩
    · rename_i above below
      cases picked : pick numbers with
      | some n => exact ⟨_, (isNumber n).1 (picks n picked), rfl⟩
      | none =>
        refine (below fun n member => ?_).elim
        cases n with
        | int n => exact absurd ((isNumber n).2 member) (by simp [misses picked])
        | other text => exact (proper text member).elim
        | infinity | negInfinity => cases upper <;> simp_all [unbounded]

end Extremes

/-! ## Products -/

/-- The numbers from three on that leave three when they are divided by four. -/
def Sample.threes : IntegerType :=
  ⟨some (.int 4), some (.int 3), some (.int 3), some .infinity⟩

theorem Sample.threes_wellFormed : WellFormed Sample.threes := by
  refine .range rfl rfl (by decide) (by decide) ?_ ?_
  · rintro (_ | _)
    · exact .inr ⟨3, rfl, rfl⟩
    · exact .inl rfl
  · rintro _ _ _ ⟨⟩

section Products

variable {left right : Expression} {own : IntegerType} {s i j : Int}

theorem mul_unbounded (upper : Bool) (j : Int) :
    let product := if j = 0 then .int 0 else unbounded (upper == decide (0 < j))
    mul (some (unbounded upper)) (some (.int j)) = .ok product ∧
      mul (some (.int j)) (some (unbounded upper)) = .ok product := by
  have unfolded : mul (some (unbounded upper)) (some (.int j)) = .ok (infinityOfSign
        ((if upper then 1 else -1) * j.sign)) ∧
      mul (some (.int j)) (some (unbounded upper)) = .ok (infinityOfSign
        (j.sign * if upper then 1 else -1)) := by
    cases upper <;> exact ⟨rfl, rfl⟩
  rcases lt_trichotomy j 0 with neg | rfl | pos
  · cases upper <;> simp [unfolded, Int.sign_eq_neg_one_of_neg neg, neg.ne, neg.not_gt] <;> rfl
  · simp [unfolded, infinityOfSign]
  · cases upper <;> simp [unfolded, Int.sign_eq_one_of_pos pos, pos.ne', pos] <;> rfl

theorem mul_zero_end (ends : Ends t m s) (upper : Bool) :
    mul (some (.int 0)) (ending upper t) = .ok (.int 0) ∧
      mul (ending upper t) (some (.int 0)) = .ok (.int 0) := by
  rcases ends.isEnd upper with infinite | ⟨k, isInt, _⟩
  · rw [infinite]
    exact (mul_unbounded upper 0).symm
  · rw [isInt, mul_of_finite rfl rfl, mul_of_finite rfl rfl, zero_mul, mul_zero]
    exact ⟨rfl, rfl⟩

/-- A product of ends is infinite, or it is reached. -/
theorem exists_corner (leftEnds : Ends l m i) (rightEnds : Ends r n j) (u w : Bool) :
    ∃ c, mul (ending u l) (ending w r) = .ok c ∧ ((∃ upper, c = unbounded upper) ∨
      ∃ x y, Bounded l x ∧ Bounded r y ∧ c = .int (x * y)) := by
  rcases leftEnds.isEnd u with first | ⟨x, first, _⟩ <;>
    rcases rightEnds.isEnd w with second | ⟨y, second, _⟩
  · rw [first, second]
    exact ⟨unbounded (u == w), by cases u <;> cases w <;> rfl, .inl ⟨_, rfl⟩⟩
  · rcases leftEnds.exists_value with ⟨x, onLeft⟩
    refine ⟨_, by rw [first, second]; exact (mul_unbounded u y).1, ?_⟩
    split
    · exact .inr ⟨x, y, onLeft, rightEnds.bounded second, by simp [*]⟩
    · exact .inl ⟨_, rfl⟩
  · rcases rightEnds.exists_value with ⟨y, onRight⟩
    refine ⟨_, by rw [first, second]; exact (mul_unbounded w x).2, ?_⟩
    split
    · exact .inr ⟨x, y, leftEnds.bounded first, onRight, by simp [*]⟩
    · exact .inl ⟨_, rfl⟩
  · exact ⟨_, by rw [first, second]; rfl,
      .inr ⟨x, y, leftEnds.bounded first, rightEnds.bounded second, rfl⟩⟩

theorem Ends.exists_nonzero (ends : Ends t m s) (nonzero : m = 0 → s ≠ 0) :
    ∃ x, x ≠ 0 ∧ Bounded t x := by
  rcases Nat.eq_zero_or_pos m with rfl | pos
  · rw [ends.eq_singleton]
    exact ⟨s, nonzero rfl, singleton_bounded rfl⟩
  · rcases ends.exists_two pos.ne' with ⟨x, y, unequal, first, second⟩
    by_cases zero : x = 0
    · exact ⟨y, by omega, second⟩
    · exact ⟨x, zero, first⟩

theorem multiplicative_wellFormed (own : IntegerType) (leftType : left.type = some (.integer l))
    (rightType : right.type = some (.integer r)) (leftForm : WellFormed l)
    (rightForm : WellFormed r) :
    ∃ t, multiplicative (.integer own) [left, right] = .ok (.integer t) ∧ WellFormed t ∧
      (congruenceOf l).mul (congruenceOf r) [] = .ok (congruenceOf t) := by
  rcases wellFormed_iff.1 leftForm with ⟨m, i, leftEnds⟩
  rcases wellFormed_iff.1 rightForm with ⟨n, j, rightEnds⟩
  rcases leftEnds.exists_value with ⟨_, leftValue⟩
  rcases rightEnds.exists_value with ⟨_, rightValue⟩
  have congruenceRun := mul_classOf m n i j
  have isSingle : (m * Int.gcd n j).gcd (n * Int.gcd m i) = 0 ↔
      m = 0 ∧ n = 0 ∨ m = 0 ∧ i = 0 ∨ n = 0 ∧ j = 0 := by
    simp only [Nat.gcd_eq_zero_iff, mul_eq_zero, Int.gcd_eq_zero_iff, Int.natCast_eq_zero]
    tauto
  generalize (m * Int.gcd n j).gcd (n * Int.gcd m i) = k at congruenceRun isSingle
  generalize i % m * (j % n) = v at congruenceRun
  rw [← leftEnds.isClass, ← rightEnds.isClass] at congruenceRun
  choose corner ran isCorner using exists_corner leftEnds rightEnds
  have isCorners (c : Numeral) : c ∈ [corner true true, corner false true, corner true false,
      corner false false] ↔ ∃ u w, c = corner u w := by
    simp only [mem_cons, not_mem_nil, or_false, Bool.exists_bool]
    tauto
  have proper (text : String) : .other text ∉ [corner true true, corner false true,
      corner true false, corner false false] := by
    rw [isCorners]
    rintro ⟨u, w, isOther⟩
    rcases isCorner u w with ⟨upper, same⟩ | ⟨_, _, _, _, same⟩
    · cases upper <;> cases isOther.trans same
    · cases isOther.trans same
  choose extreme member extremeRun using fun upper => exists_extreme upper (cons_ne_nil _ _) proper
  have run : multiplicative (.integer own) [left, right] =
      .ok (.integer ⟨(classOf k v).modulus, (classOf k v).remainder, some (extreme false),
        some (extreme true)⟩) := by
    simp only [multiplicative, bind_eq_ok]
    exact ⟨[_, _], mapM_eq_ok.2 (.cons (Failure.require_eq_ok.2 leftType)
      (.cons (Failure.require_eq_ok.2 rightType) .nil)), _, rfl, _, rfl, _, rfl, _, rfl,
      _, ran true true, _, ran false true, _, ran true false, _, ran false false,
      _, extremeRun false, _, extremeRun true, own, rfl, [], rfl, _, congruenceRun, rfl⟩
  have sound (x y : Int) (onLeft : Bounded l x) (onRight : Bounded r y) : Bounded _ (x * y) :=
    multiplicative_within run ⟨_, leftType, onLeft⟩ ⟨_, rightType, onRight⟩
  refine ⟨_, run, wellFormed_of_reached rfl sound (fun upper => ?_)
    ⟨_, _, leftValue, rightValue⟩ ?_ ?_, congruenceRun⟩
  · have isEnd : ending upper ⟨(classOf k v).modulus, (classOf k v).remainder,
        some (extreme false), some (extreme true)⟩ = some (extreme upper) := by cases upper <;> rfl
    rw [isEnd]
    rcases (isCorners _).1 (member upper) with ⟨u, w, same⟩
    rw [same]
    rcases isCorner u w with ⟨upper', infinite⟩ | ⟨x, y, onLeft, onRight, isInt⟩
    · left
      have value := sound _ _ leftValue rightValue
      cases upper <;> cases upper' <;> first | exact congrArg some infinite | skip
      · rcases (same.trans infinite ▸ value.low : AtLeast (some .infinity) _) with
          ⟨_, impossible, _⟩
        cases impossible
      · rcases (same.trans infinite ▸ value.high : AtMost (some .negInfinity) _) with
          ⟨_, impossible, _⟩
        cases impossible
    · exact .inr ⟨x, y, onLeft, onRight, congrArg some isInt⟩
  · intro zero
    have same (u w : Bool) : corner u w = corner true true := by
      refine Except.ok.inj ((ran u w).symm.trans (Eq.trans ?_ (ran true true)))
      rcases isSingle.1 zero with ⟨rfl, rfl⟩ | ⟨rfl, rfl⟩ | ⟨rfl, rfl⟩
      · rw [leftEnds.eq_singleton, rightEnds.eq_singleton]
        cases u <;> cases w <;> rfl
      · rw [leftEnds.eq_singleton]
        cases u <;> exact (mul_zero_end rightEnds w).1.trans (mul_zero_end rightEnds true).1.symm
      · rw [rightEnds.eq_singleton]
        cases w <;> exact (mul_zero_end leftEnds u).2.trans (mul_zero_end leftEnds true).2.symm
    rcases (isCorners _).1 (member false) with ⟨u, w, isLow⟩
    rcases (isCorners _).1 (member true) with ⟨u', w', isHigh⟩
    rw [isLow, isHigh, same u w, same u' w']
  · intro nonzero
    by_cases single : n = 0
    · rcases rightEnds.exists_nonzero (by grind) with ⟨y, yNonzero, onRight⟩
      rcases leftEnds.exists_two (by grind) with ⟨x, x', unequal, first, second⟩
      exact ⟨x, y, x', y, first, onRight, second, onRight, by simp [unequal, yNonzero]⟩
    · rcases leftEnds.exists_nonzero (by grind) with ⟨x, xNonzero, onLeft⟩
      rcases rightEnds.exists_two single with ⟨y, y', unequal, first, second⟩
      exact ⟨x, y, x, y', onLeft, first, onLeft, second, by simp [unequal, xNonzero]⟩

/-- The class of a product is the strongest one: it has all products of numbers of the classes, and
whatever divides the differences of these products divides its modulus. -/
theorem multiplication_strongest (own : IntegerType) (leftType : left.type = some (.integer l))
    (rightType : right.type = some (.integer r)) (leftForm : WellFormed l)
    (rightForm : WellFormed r) :
    ∃ t k, operatorType .multiplication (.integer own) [left, right] = .ok (.integer t) ∧
      t.modulus = some (modulus k) ∧
      (∀ x y, (congruenceOf l).Holds x → (congruenceOf r).Holds y →
        (congruenceOf t).Holds (x * y)) ∧
      ∀ d : Nat, (∀ x y x' y', (congruenceOf l).Holds x → (congruenceOf r).Holds y →
        (congruenceOf l).Holds x' → (congruenceOf r).Holds y' → x * y ≡ x' * y' [ZMOD d]) →
        d ∣ k := by
  rcases multiplicative_wellFormed own leftType rightType leftForm rightForm with
    ⟨t, run, _, classRun⟩
  rcases wellFormed_iff.1 leftForm with ⟨m, i, leftEnds⟩
  rcases wellFormed_iff.1 rightForm with ⟨n, j, rightEnds⟩
  have isClass := classRun
  rw [leftEnds.isClass, rightEnds.isClass, mul_classOf, Except.ok.injEq] at isClass
  refine ⟨t, _, run, congrArg Congruence.modulus isClass.symm,
    fun x y => Congruence.mul_holds classRun, fun d same => ?_⟩
  simp only [leftEnds.isClass, rightEnds.isClass, holds_classOf] at same
  have onLeft : (d : Int) ∣ m * j := by
    simpa [add_mul] using (same i j (i + m) j rfl rfl (by simp) rfl).dvd
  have onRight {x : Int} (congruent : i ≡ x [ZMOD m]) : (d : Int) ∣ x * n := by
    simpa [mul_add] using (same x j x (j + n) congruent rfl congruent (by simp)).dvd
  have both : (d : Int) ∣ m * n :=
    (Int.dvd_add_right (onRight rfl)).1 (by simpa [add_mul] using onRight (x := i + m) (by simp))
  apply Nat.dvd_gcd
  · simpa [Int.gcd_mul_left] using Int.dvd_gcd both onLeft
  · simpa [Int.gcd_mul_right, mul_comm] using Int.dvd_gcd both (onRight rfl)

/-- An expression for a number that leaves three when it is divided by four. -/
def Sample.three : Expression :=
  .unset { type := some (.integer Sample.threes) }

theorem multiplication_strongest_threes :
    operatorType .multiplication (.integer {}) [Sample.three, Sample.three] =
        .ok (.integer ⟨some (.int 4), some (.int 1), some (.int 9), some .infinity⟩) ∧
      ∀ d : Nat, (∀ x y x' y', (congruenceOf Sample.threes).Holds x →
        (congruenceOf Sample.threes).Holds y → (congruenceOf Sample.threes).Holds x' →
        (congruenceOf Sample.threes).Holds y' → x * y ≡ x' * y' [ZMOD d]) → d ∣ 4 := by
  have result : operatorType .multiplication (.integer {}) [Sample.three, Sample.three] =
      .ok (.integer ⟨some (.int 4), some (.int 1), some (.int 9), some .infinity⟩) := by cbv
  have typed : Sample.three.type = some (.integer Sample.threes) := rfl
  rcases multiplication_strongest {} typed typed Sample.threes_wellFormed Sample.threes_wellFormed
    with ⟨t, k, run, isModulus, _, strongest⟩
  cases result.symm.trans run
  obtain rfl : k = 4 := by
    rcases Nat.eq_zero_or_pos k with rfl | pos
    · cases isModulus
    · simp only [modulus_pos pos, Option.some.injEq, Numeral.int.injEq] at isModulus
      omega
  exact ⟨result, strongest⟩

end Products

/-! ## Choices and the largest of some integers -/

section Joins

variable {types : List IntegerType} {own : IntegerType} {k : Nat} {v s : Int}

/-- Bounds whose ends are ends of some well-formed bounds, with a class that holds of all of their
numbers. -/
theorem wellFormed_of_joined (forms : ∀ u ∈ types, WellFormed u)
    (isClass : congruenceOf t = classOf k v)
    (sound : ∀ u ∈ types, ∀ x, (congruenceOf u).Holds x → (congruenceOf t).Holds x)
    (isEnd : ∀ upper, ∃ u ∈ types, ending upper t = ending upper u)
    (inhabited : ∃ x, AtLeast t.minimum x ∧ AtMost t.maximum x)
    (single : k = 0 ↔ t.minimum = t.maximum) : WellFormed t := by
  refine wellFormed_iff.2 ⟨k, v, isClass, fun upper => ?_, inhabited, single⟩
  rcases isEnd upper with ⟨u, member, same⟩
  rcases wellFormed_iff.1 (forms u member) with ⟨_, _, ends⟩
  rw [same]
  exact (ends.isEnd upper).imp_right fun ⟨x, isInt, holds⟩ => ⟨x, isInt, sound u member x holds⟩

theorem exists_ending (largest upper : Bool) (nonempty : types ≠ [])
    (forms : ∀ u ∈ types, WellFormed u) :
    ∃ n, (if largest then maximum else minimum) (types.map (ending upper)) = .ok n ∧
      ∃ u ∈ types, ending upper u = some n := by
  have known : ∀ u ∈ types, ∃ n, ending upper u = some n ∧ ∀ text, n ≠ .other text := by
    intro u member
    rcases wellFormed_iff.1 (forms u member) with ⟨_, _, ends⟩
    rcases ends.isEnd upper with isEnd | ⟨_, isEnd, _⟩
    · exact ⟨_, isEnd, fun text => by cases upper <;> rintro ⟨⟩⟩
    · exact ⟨_, isEnd, by rintro text ⟨⟩⟩
  choose! numeral isEnd proper using known
  have same : types.map (ending upper) = (types.map numeral).map some := by
    rw [map_map]
    exact map_congr_left isEnd
  have others (text : String) : .other text ∉ types.map numeral := by
    intro member
    rcases mem_map.1 member with ⟨u, inTypes, isOther⟩
    exact proper u inTypes text isOther
  rcases exists_extreme largest (by simpa using nonempty) others with ⟨n, member, run⟩
  rcases mem_map.1 member with ⟨u, inTypes, rfl⟩
  exact ⟨_, same ▸ run, u, inTypes, isEnd u inTypes⟩

theorem choice_wellFormed {known : BooleanType} {condition ifTrue ifFalse : Expression}
    (isBoolean : condition.type = some (.boolean known))
    (leftType : ifTrue.type = some (.integer l)) (rightType : ifFalse.type = some (.integer r))
    (leftForm : WellFormed l) (rightForm : WellFormed r) :
    ∃ t, choice (.integer own) [condition, ifTrue, ifFalse] = .ok (.integer t) ∧ WellFormed t := by
  rcases known with ⟨_ | value⟩
  · rcases wellFormed_iff.1 leftForm with ⟨m, i, leftEnds⟩
    rcases wellFormed_iff.1 rightForm with ⟨n, j, rightEnds⟩
    rcases leftEnds.exists_value with ⟨x, leftValue⟩
    rcases rightEnds.exists_value with ⟨y, rightValue⟩
    have forms : ∀ u ∈ [l, r], WellFormed u := by simp [leftForm, rightForm]
    rcases exists_ending false false (cons_ne_nil _ _) forms with ⟨low, lowRun, isLow⟩
    rcases exists_ending true true (cons_ne_nil _ _) forms with ⟨high, highRun, isHigh⟩
    have joinRun := join_classOf m n i j
    have single : Int.gcd (m.gcd n) (i - j) = 0 ↔ m = 0 ∧ n = 0 ∧ i = j := by
      simp [Int.gcd_eq_zero_iff, Nat.gcd_eq_zero_iff, sub_eq_zero, and_assoc]
    rw [← leftEnds.isClass, ← rightEnds.isClass] at joinRun
    have sound {x : Int} (bounded : Bounded l x ∨ Bounded r x) :=
      choice_bounded lowRun highRun joinRun bounded
    refine ⟨⟨some (modulus _), _, some low, some high⟩, ?_, wellFormed_of_joined forms rfl ?_ ?_
      ⟨x, (sound (.inl leftValue)).low, (sound (.inl leftValue)).high⟩ ?_⟩
    · simp only [choice, bind_eq_ok, isBoolean, leftType, rightType]
      refine ⟨_, rfl, _, rfl, _, rfl, ?_⟩
      rw [boundsOrEmpty_of_bounded leftValue, boundsOrEmpty_of_bounded rightValue]
      simp only [bind_eq_ok]
      exact ⟨_, lowRun, _, highRun, _, joinRun, rfl⟩
    · intro u member x holds
      exact Congruence.join_holds joinRun (mem_map_of_mem member) holds
    · intro upper
      cases upper with
      | true => rcases isHigh with ⟨u, member, same⟩; exact ⟨u, member, same.symm⟩
      | false => rcases isLow with ⟨u, member, same⟩; exact ⟨u, member, same.symm⟩
    · refine single.trans ⟨?_, fun same => ?_⟩
      · rintro ⟨rfl, rfl, rfl⟩
        obtain rfl := leftEnds.eq_singleton
        obtain rfl := rightEnds.eq_singleton
        cases lowRun
        cases highRun
        rfl
      · have only {x y : Int} (first : Bounded l x ∨ Bounded r x)
            (second : Bounded l y ∨ Bounded r y) : x = y := by
          by_contra unequal
          exact minimum_ne_maximum (sound first) (sound second) unequal same
        have isZero : m = 0 := by
          by_contra several
          rcases leftEnds.exists_two several with ⟨_, _, unequal, first, second⟩
          exact unequal (only (.inl first) (.inl second))
        have isZero' : n = 0 := by
          by_contra several
          rcases rightEnds.exists_two several with ⟨_, _, unequal, first, second⟩
          exact unequal (only (.inr first) (.inr second))
        subst isZero isZero'
        obtain rfl := leftEnds.eq_singleton
        obtain rfl := rightEnds.eq_singleton
        exact ⟨rfl, rfl, only (.inl (singleton_bounded rfl)) (.inr (singleton_bounded rfl))⟩
  · have run : choice (.integer own) [condition, ifTrue, ifFalse] =
        .ok (takeOver (.integer own) (if value then .integer l else .integer r)) := by
      simp [choice, isBoolean, leftType, rightType, Failure.require, bind, Except.bind, pure,
        Except.pure]
    cases value with
    | true => exact ⟨l, run, leftForm⟩
    | false => exact ⟨r, run, rightForm⟩

/-- Classes that are joined one after the other are within a class if each of them is. -/
theorem exists_joined (m : Nat) (s : Int) (forms : ∀ u ∈ types, WellFormed u) :
    ∃ k, types.foldlM (fun c u => c.join (congruenceOf u)) (classOf m s) = .ok (classOf k s) ∧
      ∀ j i, (classOf k s).Within (classOf j i) ↔ (classOf m s).Within (classOf j i) ∧
        ∀ u ∈ types, (congruenceOf u).Within (classOf j i) := by
  induction types generalizing m with
  | nil => exact ⟨m, rfl, by simp⟩
  | cons first rest ih =>
    rcases wellFormed_iff.1 (forms first mem_cons_self) with ⟨n, i, ends⟩
    rcases ih (Int.gcd (m.gcd n) (s - i)) fun u member => forms u (mem_cons_of_mem _ member) with
      ⟨k, run, isJoin⟩
    have joinRun := join_classOf m n s i
    rw [← ends.isClass] at joinRun
    refine ⟨k, bind_eq_ok.2 ⟨_, joinRun, run⟩, fun j w => ?_⟩
    rw [isJoin, join_within_iff, forall_mem_cons, ends.isClass, and_assoc]

theorem largest_wellFormed {args : List Expression} (nonempty : args ≠ [])
    (typed : Forall₂ (fun arg u => arg.type = some (.integer u)) args types)
    (forms : ∀ u ∈ types, WellFormed u) :
    ∃ t, largest (.integer own) args = .ok (.integer t) ∧ WellFormed t := by
  have bounds : args.mapM boundsOf = .ok types :=
    mapM_eq_ok.2 (typed.imp fun _ _ => boundsOf_eq_ok.2)
  rcases typed with _ | @⟨arg, first, args, types, argType, typed⟩
  · contradiction
  rcases exists_ending true false (cons_ne_nil _ _) forms with ⟨low, lowRun, u, inTypes, isLow⟩
  rcases exists_ending true true (cons_ne_nil _ _) forms with ⟨high, highRun, w, inTypes', isHigh⟩
  rcases wellFormed_iff.1 (forms u inTypes) with ⟨_, _, lowEnds⟩
  rcases wellFormed_iff.1 (forms w inTypes') with ⟨_, _, highEnds⟩
  by_cases same : low = high
  · refine ⟨singleton (some low), ?_, ?_⟩
    · simp only [largest, bind_eq_ok]
      refine ⟨arg, rfl, _, Failure.require_eq_ok.2 argType, bind_eq_ok.2 ⟨_, bounds,
        bind_eq_ok.2 ⟨_, lowRun, bind_eq_ok.2 ⟨_, highRun, ?_⟩⟩⟩⟩
      rw [if_pos same]
      rfl
    · subst same
      rcases lowEnds.isEnd false with infinite | ⟨k, isInt, _⟩
      · rcases highEnds.isEnd true with again | ⟨_, again, _⟩ <;>
          cases (isLow.symm.trans infinite).symm.trans (isHigh.symm.trans again)
      · cases isLow.symm.trans isInt
        exact .single k
  · rcases wellFormed_iff.1 (forms first mem_cons_self) with ⟨m, s, ends⟩
    rcases exists_joined m s fun u member => forms u (mem_cons_of_mem _ member) with
      ⟨k, joinRun, isJoin⟩
    rw [← ends.isClass] at joinRun isJoin
    have within : ∀ u ∈ first :: types, (congruenceOf u).Within (classOf k s) :=
      forall_mem_cons.2 ((isJoin k s).1 fun _ => id)
    refine ⟨⟨some (modulus k), some (.int (s % k)), some low, some high⟩, ?_,
      wellFormed_of_joined forms rfl within ?_ ?_ ?_⟩
    · simp only [largest, bind_eq_ok]
      refine ⟨arg, rfl, _, Failure.require_eq_ok.2 argType, bind_eq_ok.2 ⟨_, bounds,
        bind_eq_ok.2 ⟨_, lowRun, bind_eq_ok.2 ⟨_, highRun, ?_⟩⟩⟩⟩
      rw [if_neg same]
      exact bind_eq_ok.2 ⟨first, boundsOf_eq_ok.2 argType, bind_eq_ok.2 ⟨_, joinRun, rfl⟩⟩
    · intro upper
      cases upper with
      | true => exact ⟨w, inTypes', isHigh.symm⟩
      | false => exact ⟨u, inTypes, isLow.symm⟩
    · rcases lowEnds.exists_value with ⟨x, value⟩
      exact ⟨x, isLow ▸ value.low, maximum_atMost highRun (mem_map_of_mem inTypes) value.high⟩
    · refine ⟨fun zero => ?_, fun equal => (same (Option.some.inj equal)).elim⟩
      have all : ∀ u ∈ first :: types, u = singleton (some (.int s)) := by
        intro u member
        rcases wellFormed_iff.1 (forms u member) with ⟨n, i, ends⟩
        have isSingle := within u member
        rw [ends.isClass, zero, within_classOf, zero_dvd_iff] at isSingle
        rcases isSingle with ⟨rfl, same⟩
        rw [ends.eq_singleton, Int.modEq_zero_iff.1 same]
      rw [all u inTypes] at isLow
      rw [all w inTypes'] at isHigh
      exact isLow.symm.trans isHigh

/-- The join of two classes is the least class that both are within, and classes that are joined
in any order have the same join. -/
theorem join_isLeast {first second : IntegerType} {rest others : List IntegerType}
    (forms : ∀ u ∈ first :: rest, WellFormed u) (perm : (first :: rest).Perm (second :: others)) :
    (∀ m n r s, ∃ k v, (classOf m r).join (classOf n s) = .ok (classOf k v) ∧
      (classOf m r).Within (classOf k v) ∧ (classOf n s).Within (classOf k v) ∧
      ∀ j i, (classOf m r).Within (classOf j i) → (classOf n s).Within (classOf j i) →
        j ∣ k ∧ (classOf k v).Within (classOf j i)) ∧
    ∃ k v, rest.foldlM (fun c u => c.join (congruenceOf u)) (congruenceOf first) =
        .ok (classOf k v) ∧
      others.foldlM (fun c u => c.join (congruenceOf u)) (congruenceOf second) =
        .ok (classOf k v) := by
  constructor
  · intro m n r s
    rcases join_within_iff.1 fun _ => id with ⟨onLeft, onRight⟩
    refine ⟨_, _, join_classOf m n r s, onLeft, onRight, fun j i left right => ?_⟩
    have within := join_within_iff.2 ⟨left, right⟩
    exact ⟨(within_classOf.1 within).1, within⟩
  · have forms' : ∀ u ∈ second :: others, WellFormed u := fun u member =>
      forms u (perm.mem_iff.2 member)
    rcases forall_mem_cons.1 forms with ⟨firstForm, restForms⟩
    rcases forall_mem_cons.1 forms' with ⟨secondForm, otherForms⟩
    rcases wellFormed_iff.1 firstForm with ⟨m, r, firstEnds⟩
    rcases wellFormed_iff.1 secondForm with ⟨n, s, secondEnds⟩
    rcases exists_joined m r restForms with ⟨k, run, isJoin⟩
    rcases exists_joined n s otherForms with ⟨k', run', isJoin'⟩
    rw [← firstEnds.isClass] at run
    rw [← secondEnds.isClass] at run'
    -- Either fold is within the classes that all of the arguments are within.
    have same (j : Nat) (i : Int) : (classOf k r).Within (classOf j i) ↔
        (classOf k' s).Within (classOf j i) := by
      calc
        _ ↔ ∀ u ∈ first :: rest, (congruenceOf u).Within (classOf j i) := by
          rw [isJoin, forall_mem_cons, firstEnds.isClass]
        _ ↔ ∀ u ∈ second :: others, (congruenceOf u).Within (classOf j i) := by
          simp only [perm.mem_iff]
        _ ↔ _ := by rw [isJoin', forall_mem_cons, secondEnds.isClass]
    have ⟨below, congruent⟩ := within_classOf.1 ((same k' s).2 fun _ => id)
    have above := (within_classOf.1 ((same k r).1 fun _ => id)).1
    obtain rfl := Nat.dvd_antisymm above below
    exact ⟨k, r, run, run'.trans (by rw [classOf, classOf, congruent.eq])⟩

theorem join_isLeast_swap :
    [Sample.threes].foldlM (fun c u => c.join (congruenceOf u))
        (congruenceOf (singleton (some (.int 5)))) = .ok (classOf 2 1) ∧
      [singleton (some (.int 5))].foldlM (fun c u => c.join (congruenceOf u))
        (congruenceOf Sample.threes) = .ok (classOf 2 1) := by
  have forms : ∀ u ∈ [singleton (some (.int 5)), Sample.threes], WellFormed u := by
    simp [Sample.threes_wellFormed, WellFormed.single]
  rcases join_isLeast forms (.swap ..) with ⟨_, k, v, run, run'⟩
  have result : [Sample.threes].foldlM (fun c u => c.join (congruenceOf u))
      (congruenceOf (singleton (some (.int 5)))) = .ok (classOf 2 1) := by cbv
  rw [run'.trans (run.symm.trans result)]
  exact ⟨result, rfl⟩

end Joins

/-! ## Every operator -/

/-- The type of an expression is that of integers with well-formed bounds. -/
def HasForm (e : Expression) : Prop :=
  ∃ t, e.type = some (.integer t) ∧ WellFormed t

/-- An operator that makes an integer of some integers, or chooses one. -/
inductive Combines : Operator → List Expression → Prop
  | arithmetic {operator : Operator} {left right : Expression}
      (isArithmetic : operator ∈ [.addition, .subtraction, .multiplication])
      (onLeft : HasForm left) (onRight : HasForm right) : Combines operator [left, right]
  | choice {condition ifTrue ifFalse : Expression} {known : BooleanType}
      (isBoolean : condition.type = some (.boolean known)) (onTrue : HasForm ifTrue)
      (onFalse : HasForm ifFalse) : Combines .choice [condition, ifTrue, ifFalse]
  | maximum {args : List Expression} (nonempty : args ≠ []) (each : ∀ arg ∈ args, HasForm arg) :
      Combines .maximum args

/-- Well-formed bounds are computed from well-formed ones, and they pass the check of bounds. -/
theorem operatorType_wellFormed {operator : Operator} {own : IntegerType} {args : List Expression}
    (combines : Combines operator args) :
    ∃ t, operatorType operator (.integer own) args = .ok (.integer t) ∧ WellFormed t ∧
      checkConsistent t = .ok () := by
  suffices computed : ∃ t, operatorType operator (.integer own) args = .ok (.integer t) ∧
      WellFormed t by
    rcases computed with ⟨t, run, form⟩
    exact ⟨t, run, form, form.consistent⟩
  cases combines with
  | arithmetic isArithmetic onLeft onRight =>
    rcases onLeft with ⟨_, leftType, leftForm⟩
    rcases onRight with ⟨_, rightType, rightForm⟩
    simp only [mem_cons, not_mem_nil, or_false] at isArithmetic
    rcases isArithmetic with rfl | rfl | rfl
    · exact additive_wellFormed leftType rightType leftForm rightForm
    · exact additive_wellFormed leftType rightType leftForm rightForm
    · rcases multiplicative_wellFormed own leftType rightType leftForm rightForm with
        ⟨t, run, form, _⟩
      exact ⟨t, run, form⟩
  | choice isBoolean onTrue onFalse =>
    rcases onTrue with ⟨_, leftType, leftForm⟩
    rcases onFalse with ⟨_, rightType, rightForm⟩
    exact choice_wellFormed isBoolean leftType rightType leftForm rightForm
  | maximum nonempty each =>
    choose! type isType form using each
    change ∃ t, largest (.integer own) args = .ok (.integer t) ∧ WellFormed t
    refine largest_wellFormed nonempty (forall₂_map_right_iff.2 (forall₂_same.2 isType)) ?_
    rintro _ member
    rcases mem_map.1 member with ⟨arg, inArgs, rfl⟩
    exact form arg inArgs

/-- Three, and a number that leaves three when it is divided by four. -/
def Sample.factors : List Expression :=
  [.unset { type := some (.integer ⟨some (.int 4), some (.int 3), some (.int 3), some .infinity⟩) },
    .unset { type := some (.integer (singleton (some (.int 3)))) }]

theorem operatorType_wellFormed_triple :
    operatorType .multiplication (.integer {}) Sample.factors =
        .ok (.integer ⟨some (.int 12), some (.int 9), some (.int 9), some .infinity⟩) ∧
      WellFormed ⟨some (.int 12), some (.int 9), some (.int 9), some .infinity⟩ := by
  have combines : Combines .multiplication Sample.factors := by
    exact .arithmetic (by decide) ⟨_, rfl, Sample.threes_wellFormed⟩ ⟨_, rfl, .single 3⟩
  have result : operatorType .multiplication (.integer {}) Sample.factors =
      .ok (.integer ⟨some (.int 12), some (.int 9), some (.int 9), some .infinity⟩) := by cbv
  rcases operatorType_wellFormed combines with ⟨t, run, form, _⟩
  cases result.symm.trans run
  exact ⟨result, form⟩

end BinaryLayout.Bounds
