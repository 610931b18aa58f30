import BinaryLayout.Bounds.Arithmetic
import BinaryLayout.Diagnostic.Report
import BinaryLayout.IR.Constant

/-!
# Integers that fit

Code that is generated for an expression computes with integers of 64 bits.  All values of the
expression have to fit in a signed or in an unsigned one, and the arguments of an operator
together with its result have to fit in integers of the same sort.
-/

namespace BinaryLayout.Constraint

open IR

def fitsUnsigned (minimum maximum : Int) : Bool :=
  minimum ≥ 0 && maximum ≤ Int.pow 2 64 - 1

def fitsSigned (minimum maximum : Int) : Bool :=
  minimum ≥ -Int.pow 2 63 && maximum ≤ Int.pow 2 63 - 1

def givenBound : Bounds.Bound → Checked Numeral
  | some n => if n.isEmpty then .error .invariant else .ok n
  | none => .error .invariant

def rangeErrors (file : String) (location : Option Location) (name : String) (t : IntegerType) :
    Checked (List MessageGroup) := do
  let minimum ← givenBound t.minimum
  let maximum ← givenBound t.maximum
  if minimum = .negInfinity ∨ maximum = .infinity then
    return [[.error file location
      ("Integer range of " ++ name ++ " must not be unbounded; it must fit " ++
        "in a 64-bit signed or unsigned integer.")]]
  let low ← minimum.toInt
  let high ← maximum.toInt
  if fitsUnsigned low high || fitsSigned low high then return []
  if low = high then
    return [[.error file location
      ("Constant value " ++ minimum.text ++ " of " ++ name ++
        " cannot fit in a 64-bit signed or unsigned integer.")]]
  return [[.error file location
    ("Potential range of " ++ name ++ " is " ++ minimum.text ++ " to " ++ maximum.text ++
      ", which cannot fit in a 64-bit signed or unsigned integer.")]]

/-- The sorts of integers that a range needs. -/
inductive Signedness where
  | any
  | signed
  | unsigned
deriving DecidableEq

def signednessOf (e : Expression) : Checked Signedness := do
  match ← Failure.require e.type with
  | .integer t =>
    let low ← Bounds.finite t.minimum
    let high ← Bounds.finite t.maximum
    if !fitsSigned low high then return .unsigned
    if !fitsUnsigned low high then return .signed
    return .any
  | _ => return .any

def mixedErrors (file : String) (e : Expression) (args : List Expression) (name : Option Word) :
    Checked (List MessageGroup) := do
  let clauses ← (e :: args).mapM fun clause => do return (clause, ← signednessOf clause)
  let unsigned := clauses.filter (·.2 == .unsigned)
  let signed := clauses.filter (·.2 == .signed)
  if unsigned.isEmpty || signed.isEmpty then return []
  let operator := (← Failure.require name).text.getD "None"
  let notes (list : List (Expression × Signedness)) (word : String) : List Message :=
    list.map fun (clause, _) =>
      .note file clause.location ("Requires " ++ word ++ " 64-bit integer.")
  return [.error file e.location
      ("Either all arguments to '" ++ operator ++ "' and its result must fit in a " ++
        "64-bit unsigned integer, or all must fit in a 64-bit signed integer.") ::
    (notes unsigned "unsigned" ++ notes signed "signed")]

def ownRangeErrors (file : String) (e : Expression) : Checked (List MessageGroup) := do
  match ← Failure.require e.type with
  | .integer t => rangeErrors file e.location "expression" t
  | _ => return []

mutual

/-- What is wrong with the values of an expression.  Errors are reported for the smallest parts
that have them. -/
def expressionErrors (file : String) : Expression → Checked (List MessageGroup)
  | .function operator args name callLocation note => do
    let e := Expression.function operator args name callLocation note
    let type ← Failure.entry note.type
    if type.isConstant then ownRangeErrors file e
    else
      let inner ← argumentErrors file args
      if !inner.isEmpty then return inner
      let own ← ownRangeErrors file e
      if !own.isEmpty then return own
      mixedErrors file e args name
  | e => ownRangeErrors file e

def argumentErrors (file : String) : List Expression → Checked (List MessageGroup)
  | [] => return []
  | e :: rest => do
    let first ← expressionErrors file e
    return first ++ (← argumentErrors file rest)

end

end BinaryLayout.Constraint
