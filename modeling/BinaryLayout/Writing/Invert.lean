import BinaryLayout.Bounds.Infer

/-!
# Solving for a field

A virtual field whose expression has a single reference to a field under sums and differences can
be written: the expression is solved for that field.
-/

namespace BinaryLayout.Writing

open IR

mutual

/-- The number of references to fields in an expression, and if there is one, the way to it: the
index of the argument at each operator. -/
def references : Expression → Nat × List Nat
  | .fieldReference _ _ => (1, [])
  | .function _ args _ _ _ =>
    let (count, path) := argumentReferences 0 args
    (count, if count = 1 then path else [])
  | _ => (0, [])

/-- The number of references in arguments, from an index on, and the way to the first that is
alone in its argument. -/
def argumentReferences (index : Nat) : List Expression → Nat × List Nat
  | [] => (0, [])
  | e :: rest =>
    let (count, path) := references e
    let (others, otherPath) := argumentReferences (index + 1) rest
    (count + others, if count = 1 then index :: path else otherPath)

end

def solePath (e : Expression) : Option (List Nat) :=
  let (count, path) := references e
  if count = 1 then some path else none

def madePlace : Option Location :=
  some Location.unknown.synthetic

def writtenValue (type : Option ExpressionType) : Expression :=
  let word : Word := ⟨some "$logical_value", madePlace⟩
  let reference : Reference :=
    { canonicalName := some ⟨"", ["$logical_value"]⟩, sourceName := [word],
      location := madePlace }
  .builtinReference reference ⟨type, madePlace⟩

def arithmetic (operator : Operator) (left right : Expression) : Expression :=
  .function (some operator) [left, right] none none ⟨some (.integer {}), none⟩

/-- Solve `e = result` for the reference that a path leads to in `e`.  Only sums and differences
can be undone. -/
def solve : List Nat → Expression → Expression → Checked (Option (FieldReference × Expression))
  | [], .fieldReference r _, result => return some (r, result)
  | [], _, _ => .error .unset
  | index :: path, .function operator args _ _ _, result => do
    match operator with
    | some .addition =>
      let other ← Failure.element args (1 - index)
      solve path (← Failure.element args index) (arithmetic .subtraction result other)
    | some .subtraction =>
      let inverse ← if index = 0 then do
          pure (arithmetic .addition result (← Failure.element args 1))
        else do pure (arithmetic .subtraction (← Failure.element args 0) result)
      solve path (← Failure.element args index) inverse
    | _ => return none
  | _ :: _, _, _ => .error .unset

/-- The field that an expression depends on, and the value that the field has when the expression
has the value that is written. -/
def invert (depth : Nat) (e : Expression) :
    Bounds.BoundsM (Option (FieldReference × Expression)) := do
  match solePath e with
  | none => return none
  | some path =>
    match ← solve path e (writtenValue e.type) with
    | none => return none
    | some (r, body) => return some (r, ← Bounds.compute depth body)

end BinaryLayout.Writing
