import BinaryLayout.Failure
import BinaryLayout.Text.Integer

/-!
# Numerals

The bounds of an expression are kept as texts: integers in decimal digits, `infinity` and
`-infinity`.  A `Numeral` is such a text with its meaning; a text that is none of these, which
only data from elsewhere can hold, is kept as it is.
-/

namespace BinaryLayout.IR

/-- A number as it is written. -/
inductive Numeral where
  /-- An integer in plain decimal digits. -/
  | int (value : Int)
  | infinity
  | negInfinity
  | other (text : String)
deriving DecidableEq, Inhabited

namespace Numeral

def text : Numeral → String
  | .int n => Text.decimal n
  | .infinity => "infinity"
  | .negInfinity => "-infinity"
  | .other t => t

def ofText (s : String) : Numeral :=
  if s = "infinity" then .infinity
  else if s = "-infinity" then .negInfinity
  else
    match Text.readInteger s with
    | some n => if Text.decimal n = s then .int n else .other s
    | none => .other s

def toInt : Numeral → Checked Int
  | .int n => .ok n
  | .other t =>
    match Text.readInteger t with
    | some n => .ok n
    | none => .error .malformed
  | _ => .error .malformed

def isEmpty : Numeral → Bool
  | .other t => t.isEmpty
  | _ => false

def isInfinite : Numeral → Bool
  | .infinity | .negInfinity => true
  | _ => false

end Numeral

end BinaryLayout.IR
