import BinaryLayout.IR.Constant

/-!
# Looking up attributes

The value of an attribute that is set for a node itself, and not for what is inside it.
-/

namespace BinaryLayout.IR

def requiredText (w : Option Word) : Checked (Option String) := do
  return (← Failure.require w).text

/-- The value of the attribute with a given name that is no default.  There may be only one. -/
def findAttribute (name : String) : List Attribute → Option AttributeValue →
    Checked (Option AttributeValue)
  | [], found => return found
  | a :: rest, found => do
    if (← requiredText a.name) == some name && !a.isDefault.getD false then
      Failure.ensure found.isNone
      findAttribute name rest a.value
    else findAttribute name rest found

def attribute? (attributes : List Attribute) (name : String) : Checked (Option AttributeValue) :=
  findAttribute name attributes none

/-- The truth value that an attribute is set to; anything but a truth value counts as not set. -/
def booleanAttribute? (attributes : List Attribute) (name : String) : Checked (Option Bool) := do
  match ← attribute? attributes name with
  | none => return none
  | some value =>
    match ← Failure.require value.expression? with
    | .booleanConstant b _ => return b.value
    | _ => return none

/-- The number that an attribute is set to; anything but a constant number counts as not set. -/
def integerAttribute? (attributes : List Attribute) (name : String) :
    Checked (Option Constant) := do
  match ← attribute? attributes name with
  | none => return none
  | some value =>
    let e ← Failure.require value.expression?
    match ← Failure.require e.type with
    | .integer _ => e.constantValue?
    | _ => return none

end BinaryLayout.IR
