import BinaryLayout.IR.Debug
import BinaryLayout.IR.Find
import BinaryLayout.IR.Walk
import BinaryLayout.Diagnostic.Report

/-!
# Types of expressions

An expression is an integer, a truth value, a value of an enumeration, or something that
expressions cannot take apart.
-/

namespace BinaryLayout.Typing

open IR

inductive TypeSort where
  | compound
  | integer
  | boolean
  | enumeration
deriving DecidableEq

def sortOf : ExpressionType → Option TypeSort
  | .unset => none
  | .compound => some .compound
  | .integer _ => some .integer
  | .boolean _ => some .boolean
  | .enumeration _ => some .enumeration

def sort? (e : Expression) : Option TypeSort :=
  e.type.bind sortOf

def sortOfTyped (e : Expression) : Checked (Option TypeSort) := do
  return sortOf (← Failure.require e.type)

abbrev TypingM := StateT Program ReportM

def objectName : Object → Checked CanonicalName
  | .moduleFile _ => .error .unset
  | .definition t => do Failure.require (← Failure.require t.name).canonicalName
  | .field f => do Failure.require (← Failure.require f.name).canonicalName
  | .enumValue v => do Failure.require (← Failure.require v.name).canonicalName
  | .parameter p => do Failure.require (← Failure.require p.name).canonicalName

/-- The type of an expression that stands for a field of some type.  Nothing is known of its
value yet. -/
def valueType (object : Object) : Checked ExpressionType := do
  if (← booleanAttribute? (← object.attributes) "is_integer") == some true then
    return .integer {}
  let name ← objectName object
  if name.path == ["Flag"] then return .boolean {}
  match object with
  | .definition t =>
    match t.body with
    | .enumeration _ => return .enumeration { name := some { canonicalName := some name } }
    | _ => return .compound
  | _ => return .compound

def valueTypeAt (p : Program) (r : Option Reference) : Checked ExpressionType := do
  valueType (← p.resolve? r).object

def enumName (t : EnumType) : Checked CanonicalName := do
  Failure.require (← Failure.require t.name).canonicalName

/-- Whether two types go together.  Only integers, truth values and enumerations can be asked
for. -/
def compatible : ExpressionType → ExpressionType → Checked Bool
  | .integer _, .integer _ => return true
  | .boolean _, .boolean _ => return true
  | .enumeration a, .enumeration b => do return (← enumName a) == (← enumName b)
  | .compound, .compound => .error .invariant
  | .unset, .unset => .error .invariant
  | _, _ => return false

end BinaryLayout.Typing
