/-!
# Causes of failure

A program that a user can write is answered with diagnostics.  A `Failure` is the other way to
end: a step met data that no valid program contains, such as an expression without a type after
typing.  The causes say what was wrong with the data, and nothing about who asked.
-/

namespace BinaryLayout

/-- Why a step could not go on. -/
inductive Failure where
  /-- A part that the step needs is not set, or a value has the wrong kind for its field. -/
  | unset
  /-- A statement that should hold of the data does not. -/
  | invariant
  | noEntry
  | outOfRange
  /-- A text or number is not one that can be read here. -/
  | malformed
  /-- An operation is not defined on a value of this kind. -/
  | illTyped
  | divisionByZero
  | notARule
  /-- A parsing machine could not be made, for the reason given. -/
  | machine (message : String)
  | noFile
  /-- A path leads through a file. -/
  | notADirectory
  | isADirectory
  | fileExists
  | notJson
  /-- A recursion went deeper than any chain of references in the program, or has no end. -/
  | exhausted
deriving DecidableEq, Repr, Inhabited

/-- The result of a step that can fail. -/
abbrev Checked (α : Type) := Except Failure α

namespace Failure

/-- Ask for a part that has to be set. -/
def require {α : Type} : Option α → Checked α
  | some a => .ok a
  | none => .error .unset

/-- Ask for a part of which something is looked up. -/
def entry {α : Type} : Option α → Checked α
  | some a => .ok a
  | none => .error .noEntry

def ensure (condition : Bool) : Checked Unit :=
  if condition then .ok () else .error .invariant

def element {α : Type} (list : List α) (index : Nat) : Checked α :=
  match list[index]? with
  | some a => .ok a
  | none => .error .outOfRange

def lastOf {α : Type} (list : List α) : Checked α :=
  match list.getLast? with
  | some a => .ok a
  | none => .error .outOfRange

@[simp]
theorem require_some {α : Type} (a : α) : require (some a) = .ok a :=
  rfl

@[simp]
theorem require_none {α : Type} : require (none : Option α) = .error .unset :=
  rfl

@[simp]
theorem ensure_true : ensure true = .ok () :=
  rfl

@[simp]
theorem ensure_false : ensure false = .error .invariant :=
  rfl

end Failure

end BinaryLayout
