import BinaryLayout.Json.Basic

/-!
# Editing JSON values

A place in a value is named by the keys and indexes that lead to it.  Negative indexes count from
the end.
-/

namespace BinaryLayout.Json

def position? (length : Nat) (index : Int) : Option Nat :=
  let i := if index < 0 then index + length else index
  if 0 ≤ i ∧ i < length then some i.toNat else none

/-- Set the place that a key or index names, or remove it. -/
def editHere (key value : Json) : Json → Checked Json
  | .obj members =>
    match key, value with
    | .str name, .null =>
      if members.any (·.1 == name) then return .obj (members.filter (·.1 != name))
      else .error .noEntry
    | .str name, value => return .obj (setMember name value members)
    | _, _ => .error .noEntry
  | .arr elements =>
    match key.int?, value with
    | none, _ => .error .illTyped
    | some index, value =>
      match position? elements.length index, value with
      | none, _ => .error .outOfRange
      | some i, .null => return .arr (elements.eraseIdx i)
      | some i, value => return .arr (elements.set i value)
  | _ => .error .illTyped

def edit (value : Json) : List Json → Json → Checked Json
  | [], _ => .error .outOfRange
  | [key], j => editHere key value j
  | key :: next :: rest, j =>
    match j with
    | .obj members =>
      match key.str?.bind fun name => j.member? name with
      | none => .error .noEntry
      | some inner => do
        let changed ← edit value (next :: rest) inner
        return .obj (setMember (key.str?.getD "") changed members)
    | .arr elements =>
      match key.int? with
      | none => .error .illTyped
      | some index =>
        match (position? elements.length index).bind fun i => elements[i]?.map (i, ·) with
        | none => .error .outOfRange
        | some (i, inner) => do return .arr (elements.set i (← edit value (next :: rest) inner))
    | _ => .error .illTyped

end BinaryLayout.Json
