import BinaryLayout.Bounds.Arithmetic
import BinaryLayout.IR.Constant

/-!
# Bounds of operators

What is known of the value of an operator, given what is known of its arguments.
-/

namespace BinaryLayout.Bounds

open IR

/-- The bounds of an integer; nothing else has any. -/
def integerOf : ExpressionType → Checked IntegerType
  | .integer t => .ok t
  | _ => .error .unset

def boundsOf (e : Expression) : Checked IntegerType := do
  integerOf (← Failure.require e.type)

def congruenceOf (t : IntegerType) : Congruence :=
  ⟨t.modulus, t.modularValue⟩

def singleton (value : Bound) : IntegerType :=
  ⟨some .infinity, value, value, value⟩

/-- Check that the bounds of an integer fit together: both ends belong to the congruence, and a
single value has an infinite modulus. -/
def checkConsistent (t : IntegerType) : Checked Unit := do
  if t.modulus == some .infinity then
    Failure.ensure (t.minimum == t.modularValue)
    Failure.ensure (t.maximum == t.modularValue)
  else
    let modulus ← finite t.modulus
    Failure.ensure (0 < modulus)
    if t.minimum ≠ some .negInfinity then
      Failure.ensure ((← finite t.minimum).emod modulus == (← finite t.modularValue))
    if t.maximum ≠ some .infinity then
      Failure.ensure ((← finite t.maximum).emod modulus == (← finite t.modularValue))
    Failure.ensure (t.minimum != t.maximum)
    if t.minimum ≠ some .negInfinity ∧ t.maximum ≠ some .infinity then
      Failure.ensure ((← finite t.minimum) ≤ (← finite t.maximum))

def twoOf {α : Type} : List α → Checked (α × α)
  | [a, b] => .ok (a, b)
  | _ => .error .malformed

def hasRemainder (t : IntegerType) : Bool :=
  match t.modularValue with
  | some n => !n.isEmpty
  | none => false

def additiveCongruence (operation : Bound → Bound → Checked Numeral) (left right : IntegerType) :
    Checked (Numeral × Numeral) := do
  let value ← operation left.modularValue right.modularValue
  let modulus ← gcd left.modulus right.modulus
  return (value, modulus)

def reduce (value modulus : Numeral) : Checked Numeral :=
  match modulus with
  | .infinity => .ok value
  | modulus =>
    match value with
    | .int n => do return .int (← remainderBy n (← modulus.toInt))
    | _ => .error .illTyped

def additive (isSum : Bool) (own : ExpressionType) (args : List Expression) :
    Checked ExpressionType := do
  for arg in args do Failure.ensure (hasRemainder (← boundsOf arg))
  let (left, right) ← twoOf args
  let left ← boundsOf left
  let right ← boundsOf right
  let operation := if isSum then add else sub
  let (value, modulus) ← additiveCongruence operation left right
  let _ ← integerOf own
  let remainder ← reduce value modulus
  let (low, high) :=
    if isSum then (right.minimum, right.maximum) else (right.maximum, right.minimum)
  let minimum ← operation left.minimum low
  let maximum ← operation left.maximum high
  return .integer ⟨some modulus, some remainder, some minimum, some maximum⟩

def multiplicative (own : ExpressionType) (args : List Expression) : Checked ExpressionType := do
  let types ← args.mapM fun arg => Failure.require arg.type
  let left ← integerOf (← Failure.element types 0)
  let right ← integerOf (← Failure.element types 1)
  let corners := [← mul left.maximum right.maximum, ← mul left.minimum right.maximum,
    ← mul left.maximum right.minimum, ← mul left.minimum right.minimum].map some
  let minimum ← minimum corners
  let maximum ← maximum corners
  let _ ← integerOf own
  let others ← (types.drop 2).mapM integerOf
  let c ← (congruenceOf left).mul (congruenceOf right) (others.map congruenceOf)
  return .integer ⟨c.modulus, c.remainder, some minimum, some maximum⟩

def largest (own : ExpressionType) (args : List Expression) : Checked ExpressionType := do
  match own with
  | .integer _ => pure ()
  | _ => throw .invariant
  let first ← Failure.element args 0
  match ← Failure.require first.type with
  | .integer _ => pure ()
  | _ => throw .invariant
  let bounds ← args.mapM boundsOf
  let minimum ← maximum (bounds.map (·.minimum))
  let maximum ← maximum (bounds.map (·.maximum))
  if minimum = maximum then return .integer (singleton (some minimum))
  let first ← boundsOf first
  let joined ← (bounds.drop 1).foldlM (fun c t => c.join (congruenceOf t)) (congruenceOf first)
  let known (b : Bound) : Bound := some (b.getD (.other "None"))
  return .integer ⟨known joined.modulus, known joined.remainder, some minimum, some maximum⟩

/-- A value that is known of two others.  The logical operators take truth values only. -/
def compareConstants (operator : Operator) (a b : Constant) : Checked Bool :=
  match operator with
  | .equality => return a.toInt == b.toInt
  | .inequality => return a.toInt != b.toInt
  | .less => return a.toInt < b.toInt
  | .lessOrEqual => return a.toInt ≤ b.toInt
  | .greater => return a.toInt > b.toInt
  | .greaterOrEqual => return a.toInt ≥ b.toInt
  | .and =>
    match a, b with
    | .bool a, .bool b => return a && b
    | _, _ => .error .unset
  | .or =>
    match a, b with
    | .bool a, .bool b => return a || b
    | _, _ => .error .unset
  | _ => .error .invariant

def allConstant : List Expression → Checked (Option (List Constant))
  | [] => return some []
  | e :: rest => do
    match ← e.constantValue? with
    | none => return none
    | some c => return (← allConstant rest).map (c :: ·)

def comparison (operator : Operator) (own : ExpressionType) (args : List Expression) :
    Checked ExpressionType := do
  match ← allConstant args with
  | none => return own
  | some [a, b] =>
    let value ← compareConstants operator a b
    match own with
    | .boolean _ => return .boolean ⟨some value⟩
    | _ => throw .unset
  | some _ => throw .illTyped

def boundsOrEmpty (t : ExpressionType) : IntegerType :=
  let known (b : Bound) : Bound := some (b.getD (.other ""))
  match t with
  | .integer t => ⟨known t.modulus, known t.modularValue, known t.minimum, known t.maximum⟩
  | _ => ⟨known none, known none, known none, known none⟩

def takeOver (own other : ExpressionType) : ExpressionType :=
  match other with
  | .unset => own
  | t => t

/-- The bounds of a choice.  If the condition is known, they are those of one side. -/
def choice (own : ExpressionType) (args : List Expression) : Checked ExpressionType := do
  match args with
  | [condition, ifTrue, ifFalse] =>
    let condition ← Failure.require condition.type
    let left ← Failure.require ifTrue.type
    let right ← Failure.require ifFalse.type
    match condition with
    | .boolean ⟨some value⟩ => return takeOver own (if value then left else right)
    | _ =>
      match left with
      | .integer _ =>
        let left := boundsOrEmpty left
        let right := boundsOrEmpty right
        let minimum ← minimum [left.minimum, right.minimum]
        let maximum ← maximum [left.maximum, right.maximum]
        let c ← (congruenceOf left).join (congruenceOf right)
        return .integer ⟨c.modulus, c.remainder, some minimum, some maximum⟩
      | .boolean _ | .enumeration _ => return own
      | _ => throw .invariant
  | _ => throw .malformed

/-- The value of a bound function: one end of the bounds of its argument. -/
def boundFunction (isUpper : Bool) (own : ExpressionType) (args : List Expression) :
    Checked ExpressionType := do
  let t ← boundsOf (← Failure.element args 0)
  let _ ← integerOf own
  return .integer (singleton (if isUpper then t.maximum else t.minimum))

/-- What is known of an operator or function that depends on its arguments alone. -/
def operatorType (operator : Operator) (own : ExpressionType) (args : List Expression) :
    Checked ExpressionType :=
  match operator with
  | .addition => additive true own args
  | .subtraction => additive false own args
  | .multiplication => multiplicative own args
  | .choice => choice own args
  | .maximum => largest own args
  | .upperBound => boundFunction true own args
  | .lowerBound => boundFunction false own args
  | .unknown | .presence => .error .invariant
  | operator => comparison operator own args

/-- The largest number of bits of an integer that can be written down, in no more than 4300
digits. -/
def writableBits : Int := 14284

def writableDigitBits : Int := 17200

def halfDigits (power : Nat) (digits : Nat) : String :=
  let shown := Text.decimal (digits : Int)
  "0." ++ String.ofList (List.replicate (power - shown.length) '0') ++ shown

def powerText (exponent : Int) (less : Nat) : Numeral :=
  match exponent with
  | .ofNat n => .int (Int.pow 2 n - less)
  | .negSucc n =>
    let k := n + 1
    let tenth := Nat.pow 5 k
    if less = 0 then .other (halfDigits k tenth)
    else .other ("-" ++ halfDigits k (Nat.pow 10 k - tenth))

def opposite : Numeral → Numeral
  | .int n => .int (-n)
  | n => .other ("-" ++ n.text)

def physicalRange (name : List String) (size : Int) : Checked (Numeral × Numeral) :=
  match name with
  | ["UInt"] =>
    if size > writableBits then .error .malformed
    else return (.int 0, powerText size 1)
  | ["Int"] =>
    if size - 1 > writableBits then .error .malformed
    else return (opposite (powerText (size - 1) 0), powerText (size - 1) 1)
  | ["Bcd"] =>
    if size > writableDigitBits then .error .malformed
    else
      match size with
      | .ofNat n => return (.int 0, .int (Int.pow 10 (n / 4) * Int.pow 2 (n % 4) - 1))
      | .negSucc _ => return (.int 0, .other "-0.9")
  | _ => .error .invariant

end BinaryLayout.Bounds
