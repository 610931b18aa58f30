import BinaryLayout.IR.Basic

/-!
# Constant values

The value of an expression that does not depend on any field.  A truth value counts as zero or
one where a number is asked for, and `&&` and `||` follow three-valued logic: one operand alone
can decide them.
-/

namespace BinaryLayout.IR

/-- A value that is known without any data. -/
inductive Constant where
  | bool (b : Bool)
  | int (n : Int)
deriving DecidableEq

namespace Constant

def toInt : Constant → Int
  | .bool b => if b then 1 else 0
  | .int n => n

def text : Constant → String
  | .bool b => if b then "True" else "False"
  | .int n => Text.decimal n

def isTrue (c : Constant) : Bool :=
  c.toInt != 0

def maximum (first : Constant) (rest : List Constant) : Constant :=
  rest.foldl (fun best c => if best.toInt < c.toInt then c else best) first

end Constant

/-- Values for the names of the language that stand for one. -/
abbrev Bindings := List (String × Constant)

def Operator.binary? : Operator → Option (Int → Int → Constant)
  | .addition => some fun a b => .int (a + b)
  | .subtraction => some fun a b => .int (a - b)
  | .multiplication => some fun a b => .int (a * b)
  | .equality => some fun a b => .bool (a == b)
  | .inequality => some fun a b => .bool (a != b)
  | .less => some fun a b => .bool (a < b)
  | .lessOrEqual => some fun a b => .bool (a ≤ b)
  | .greater => some fun a b => .bool (a > b)
  | .greaterOrEqual => some fun a b => .bool (a ≥ b)
  | _ => none

def Operator.evaluate (operator : Operator) (values : List Constant) : Checked Constant :=
  match operator, operator.binary?, values with
  | _, some f, [a, b] => .ok (f a.toInt b.toInt)
  | _, some _, _ => .error .illTyped
  | .maximum, none, first :: rest => .ok (Constant.maximum first rest)
  | .maximum, none, [] => .error .malformed
  | _, none, _ => .error .noEntry

/-- The value of an operator or function, if those of the arguments determine it. -/
def Operator.constant? (operator : Operator) (values : List (Option Constant)) :
    Checked (Option Constant) :=
  match operator with
  | .unknown => return none
  | .and =>
    if values.contains (some (.bool false)) then return some (.bool false)
    else if values.contains none then return none
    else return some (.bool true)
  | .or =>
    if values.contains (some (.bool true)) then return some (.bool true)
    else if values.contains none then return none
    else return some (.bool false)
  | .choice => do
    match ← Failure.element values 0 with
    | none => return none
    | some condition => Failure.element values (if condition.isTrue then 1 else 2)
  | operator =>
    if values.contains none then return none
    else return some (← operator.evaluate (values.filterMap id))

def ExpressionType.soleValue : Option ExpressionType → Checked Constant
  | some (.integer t) => do
    Failure.ensure (t.modulus == some .infinity)
    return .int (← (t.modularValue.getD (.other "")).toInt)
  | some (.boolean t) =>
    match t.value with
    | some b => .ok (.bool b)
    | none => .error .invariant
  | some (.enumeration t) =>
    match t.value with
    | some n => do return .int (← n.toInt)
    | none => .error .invariant
  | _ => .error .invariant

/-- The value of a number as written; one that is not written is zero. -/
def NumericConstant.toInt (n : NumericConstant) : Checked Int :=
  match n.value with
  | none => .ok 0
  | some value => if value.isEmpty then .ok 0 else value.toInt

namespace Expression

mutual

def constant? (bindings : Bindings) : Expression → Checked (Option Constant)
  | .unset _ => return none
  | .constant n _ => do return some (.int (← n.toInt))
  | .constantReference _ note => do return some (← ExpressionType.soleValue note.type)
  | .function operator args _ _ _ => do
    (operator.getD .unknown).constant? (← constantsOf bindings args)
  | .fieldReference _ _ => return none
  | .booleanConstant b _ => return some (.bool (b.value.getD false))
  | .builtinReference r _ => do
    let name ← Failure.element ((r.canonicalName.getD {}).path) 0
    return bindings.lookup name

def constantsOf (bindings : Bindings) : List Expression → Checked (List (Option Constant))
  | [] => return []
  | e :: rest => do
    let first ← constant? bindings e
    return first :: (← constantsOf bindings rest)

end

def constantValue? (e : Expression) : Checked (Option Constant) :=
  e.constant? []

def isConstant (e : Expression) : Checked Bool := do
  return (← e.constantValue?).isSome

end Expression

def ExpressionType.isConstant : ExpressionType → Bool
  | .integer t => t.modulus == some .infinity
  | .boolean t => t.value.isSome
  | .enumeration t => t.value.isSome
  | _ => false

end BinaryLayout.IR
