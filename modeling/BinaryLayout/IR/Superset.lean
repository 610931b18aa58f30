import BinaryLayout.IR.Edit

/-!
# Records that contain others

One record is a superset of another if it has every field that the other has, with the same
scalars and with supersets of its nodes.  Lists may be longer.  `Datum.supersetFault` finds the
first place where this does not hold and says what is wrong there.
-/

namespace BinaryLayout.IR

namespace Datum

def differ (path : String) (found expected : Datum) : String :=
  path ++ " differs: found " ++ found.asText ++ ", expected " ++ expected.asText

def fieldPath (path name : String) : String :=
  if path.isEmpty then name else path ++ "." ++ name

mutual

def supersetFault (path : String) (found : Datum) : Datum → Option String
  | .record kind members => supersetMembers path found kind members
  | _ => none
termination_by structural expected => expected

def supersetMembers (path : String) (found : Datum) (kind : Kind) :
    List (String × Datum) → Option String
  | [] => none
  | (name, expected) :: rest =>
    match kind.field? name with
    | none => supersetMembers path found kind rest
    | some spec =>
      match supersetField (fieldPath path name) spec (found.get name) expected with
      | some fault => some fault
      | none => supersetMembers path found kind rest
termination_by structural members => members

def supersetField (path : String) (spec : FieldSpec) (found : Datum) : Datum → Option String
  | .unset => none
  | .record kind members =>
    if found.isSet then supersetMembers path found kind members else some (path ++ " missing")
  | .list elements =>
    if spec.kind?.isSome then
      if elements.length > found.elements.length then
        some (path ++ "[" ++ Text.decimal found.elements.length ++ "] missing")
      else supersetElements path 0 found.elements elements
    else if elements.isEmpty || found.same (.list elements) then none
    else some (differ path found (.list elements))
  | expected =>
    if !found.isSet then some (path ++ " missing")
    else if found.same expected then none
    else some (differ path found expected)
termination_by structural expected => expected

def supersetElements (path : String) (index : Nat) (found : List Datum) :
    List Datum → Option String
  | [] => none
  | expected :: rest =>
    let place := path ++ "[" ++ Text.decimal index ++ "]"
    match supersetFault place (found.headD .unset) expected with
    | some fault => some fault
    | none => supersetElements path (index + 1) found.tail rest
termination_by structural expected => expected

end

end Datum

end BinaryLayout.IR
