import BinaryLayout.Failure
import BinaryLayout.Text.Integer

/-!
# C++ integers

The integer types of generated code, which of them is taken for a range of values, and how a
constant is written so that every compiler gives it the intended type.
-/

namespace BinaryLayout.Cpp

structure IntType where
  isSigned : Bool
  bits : Nat
deriving DecidableEq

namespace IntType

def text (t : IntType) : String :=
  "::std::" ++ (if t.isSigned then "int" else "uint") ++ Text.decimal t.bits ++ "_t"

def minimum (t : IntType) : Int :=
  if t.isSigned then -Int.pow 2 (t.bits - 1) else 0

def maximum (t : IntType) : Int :=
  if t.isSigned then Int.pow 2 (t.bits - 1) - 1 else Int.pow 2 t.bits - 1

def holds (t : IntType) (low high : Int) : Bool :=
  t.minimum ≤ low && high ≤ t.maximum

/-- The types in which values are computed, those to be preferred first. -/
def computing : List IntType :=
  [⟨true, 32⟩, ⟨false, 32⟩, ⟨true, 64⟩, ⟨false, 64⟩]

def forRange (low high : Int) : Option IntType :=
  computing.find? (·.holds low high)

def forEnum (bits : Int) (isSigned : Bool) : Checked IntType :=
  match [8, 16, 32, 64].find? fun size : Nat => bits ≤ size with
  | some size => .ok ⟨isSigned, size⟩
  | none => .error .invariant

end IntType

/-- A constant of some value, given its digits.  The type is written out, and the digits have a
suffix, so that no compiler takes another type.  The least integer has no literal of its own: a
minus sign is an operator. -/
def integerText (value : Int) (digits : String) : Checked String :=
  match IntType.forRange value value with
  | none => .error .invariant
  | some t =>
    let constant :=
      if value = -Int.pow 2 63 then "-9223372036854775807LL - 1"
      else digits ++ (if t.isSigned then "" else "U") ++ "LL"
    .ok ("static_cast</**/" ++ t.text ++ ">(" ++ constant ++ ")")

def renderInteger (value : Int) : Checked String :=
  integerText value (Text.decimal value)

def maybeType (type : String) : String :=
  "::emboss::support::Maybe</**/" ++ type ++ ">"

def renderMaybeInteger (value : Int) : Checked String := do
  let constant ← renderInteger value
  let type := ((IntType.forRange value value).map IntType.text).getD "None"
  return maybeType type ++ "(" ++ constant ++ ")"

end BinaryLayout.Cpp
