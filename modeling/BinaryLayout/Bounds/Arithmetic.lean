import BinaryLayout.IR.Numeral

/-!
# Arithmetic of bounds

Bounds are integers or one of the two infinities, and a bound that was never computed is missing.
An infinite bound decides a sum or a largest element alone; everything else has to be an integer.

A congruence says what is left of a number after division by a modulus.  The modulus `infinity`
means that there is only one such number.
-/

namespace BinaryLayout.Bounds

open IR

abbrev Bound := Option Numeral

def finite : Bound → Checked Int
  | none => .error .illTyped
  | some n => n.toInt

def isInfinite : Bound → Bool
  | some n => n.isInfinite
  | none => false

/-- The sum of two bounds of which the first is infinite only if the second is. -/
def addOrdered (a b : Bound) : Checked Numeral :=
  match b with
  | some .infinity => do
    Failure.ensure (a != some .negInfinity)
    return .infinity
  | some .negInfinity => do
    Failure.ensure (a != some .infinity)
    return .negInfinity
  | b => do return .int ((← finite a) + (← finite b))

/-- The sum of two bounds.  Infinities of different signs have none. -/
def add (a b : Bound) : Checked Numeral :=
  if isInfinite a then addOrdered b a else addOrdered a b

def sub (a b : Bound) : Checked Numeral :=
  match b with
  | some .infinity => add a (some .negInfinity)
  | some .negInfinity => add a (some .infinity)
  | b => do add a (some (.int (-(← finite b))))

def sign : Bound → Checked Int
  | some .infinity => return 1
  | some .negInfinity => return -1
  | b => do return (← finite b).sign

def infinityOfSign (s : Int) : Numeral :=
  if s > 0 then .infinity else if s < 0 then .negInfinity else .int 0

/-- The product of two bounds; zero times an infinity is zero. -/
def mul (a b : Bound) : Checked Numeral := do
  if isInfinite a || isInfinite b then
    return infinityOfSign ((← sign a) * (← sign b))
  return .int ((← finite a) * (← finite b))

def finiteOnes (list : List Bound) : Checked (List Int) :=
  (list.filter fun b => !isInfinite b).mapM finite

def maximum (list : List Bound) : Checked Numeral := do
  if list.contains (some .infinity) then return .infinity
  if list.all (· == some .negInfinity) then return .negInfinity
  match (← finiteOnes list).max? with
  | some n => return .int n
  | none => return .negInfinity

def minimum (list : List Bound) : Checked Numeral := do
  if list.contains (some .negInfinity) then return .negInfinity
  if list.all (· == some .infinity) then return .infinity
  match (← finiteOnes list).min? with
  | some n => return .int n
  | none => return .infinity

def finiteModulus? : Bound → Checked (Option Int)
  | some .infinity => return none
  | b => do return some (← finite b)

/-- The greatest common divisor of two moduli.  Every number divides `infinity`, and it is the
greatest of all that divide zero twice. -/
def gcd (a b : Bound) : Checked Numeral := do
  let a ← finiteModulus? a
  let b ← finiteModulus? b
  Failure.ensure (0 ≤ a.getD 0)
  Failure.ensure (0 ≤ b.getD 0)
  let divisor := Int.gcd (a.getD 0) (b.getD 0)
  return if divisor = 0 then .infinity else .int divisor

/-- What is left of a number after division by a modulus. -/
structure Congruence where
  modulus : Bound
  remainder : Bound
deriving DecidableEq

def remainderBy (n d : Int) : Checked Int :=
  if d = 0 then .error .divisionByZero else return n.fmod d

namespace Congruence

def join (left right : Congruence) : Checked Congruence := do
  let common ← gcd left.modulus right.modulus
  let distance := ((← finite left.remainder) - (← finite right.remainder)).natAbs
  match ← gcd (some common) (some (.int distance)) with
  | .infinity =>
    Failure.ensure (left.remainder == right.remainder)
    Failure.ensure (left.modulus == right.modulus && right.modulus == some .infinity)
    return ⟨some .infinity, left.remainder⟩
  | modulus =>
    let m ← modulus.toInt
    let l ← remainderBy (← finite left.remainder) m
    let r ← remainderBy (← finite right.remainder) m
    Failure.ensure (l == r)
    return ⟨some modulus, some (.int l)⟩

/-- The congruence of a constant times a number.  Zero times anything is zero. -/
def scale (constant varying : Congruence) : Checked Congruence := do
  let factor ← finite constant.remainder
  if factor = 0 then return ⟨some .infinity, some (.int 0)⟩
  let modulus := (← finite varying.modulus) * factor.natAbs
  let remainder ← remainderBy ((← finite varying.remainder) * factor) modulus
  return ⟨some (.int modulus), some (.int remainder)⟩

def content (c : Congruence) : Checked (Int × Int) := do
  match ← gcd c.modulus c.remainder with
  | .infinity => throw .illTyped
  | divisor =>
    let d ← divisor.toInt
    let m ← finite c.modulus
    Failure.ensure (m.fmod d == 0)
    let _ ← finite c.remainder
    return (d, m.fdiv d)

def product (factors : List Congruence) : Checked Congruence := do
  let contents ← factors.mapM content
  let quotients := contents.map (·.2)
  let first ← Failure.element quotients 0
  let second ← Failure.element quotients 1
  match ← gcd (some (.int first)) (some (.int second)) with
  | .infinity => throw .illTyped
  | shared =>
    let modulus := (contents.map (·.1)).foldl (· * ·) (← shared.toInt)
    let remainder := (← factors.mapM fun c => finite c.remainder).foldl (· * ·) 1
    return ⟨some (.int modulus), some (.int (← remainderBy remainder modulus))⟩

def mul (left right : Congruence) (others : List Congruence) : Checked Congruence := do
  let factors := left :: right :: others
  if factors.all (·.modulus == some .infinity) then
    let value := (← finite left.remainder) * (← finite right.remainder)
    return ⟨some .infinity, some (.int value)⟩
  if factors.any (·.modulus == some .infinity) then
    if !others.isEmpty then throw .malformed
    if left.modulus == some .infinity then scale left right else scale right left
  else product factors

end Congruence

end BinaryLayout.Bounds
