import BinaryLayout.Typing.Infer

/-!
# Checking types

What kind of value is wanted in each place of a definition: numbers for places and sizes, a truth
value for the condition of a field, and for the parameters of a type what the type asks for.
-/

namespace BinaryLayout.Typing

open IR

def wantInteger (file : String) (e : Option Expression) (name : String) : ReportM Unit := do
  let e ← Failure.entry e
  if sort? e ≠ some .integer then
    report (.error file e.location (name ++ " must be an integer."))

/-- Check a part that has to be a truth value. -/
def wantBoolean (file : String) (e : Option Expression) (name : String) : ReportM Unit := do
  let e ← Failure.entry e
  if sort? e ≠ some .boolean then
    report (.error file e.location (name ++ " must be a boolean."))

def checkPlacement (file : String) (l : Placement) : ReportM Unit := do
  wantInteger file l.start "Start of field"
  wantInteger file l.size "Size of field"

def checkParameter (file : String) (q : RuntimeParameter) : ReportM Unit := do
  let sort := sortOf (← Failure.require q.type)
  if sort ≠ some .integer ∧ sort ≠ some .enumeration then
    let physical ← Failure.require q.physicalType
    report (.error file physical.location "Runtime parameters must be integer or enum.")

def typeName : ExpressionType → Checked String
  | .integer _ => return "integer"
  | .enumeration known => do Failure.lastOf (← enumName known).path
  | _ => .error .invariant

def countText (n : Nat) : String :=
  Text.decimal n ++ " parameter" ++ (if n = 1 then "" else "s")

def checkArguments (file target typeText : String) :
    Nat → List RuntimeParameter → List Expression → ReportM Unit
  | index, q :: parameters, e :: arguments => do
    let wanted ← Failure.require q.type
    match sortOf wanted with
    | none | some .compound => pure ()
    | sort =>
      let given ← Failure.require e.type
      if sortOf given ≠ sort then
        reportGroup
          [.error file e.location
              ("Parameter " ++ Text.decimal index ++ " of type " ++ typeText ++ " must be " ++
                (← typeName wanted) ++ ", not " ++ (← typeName given) ++ "."),
            .note target q.location
              ("Parameter " ++ Text.decimal index ++ " of " ++ typeText ++ ".")]
    checkArguments file target typeText (index + 1) parameters arguments
  | _, _, _ => return

def checkTypeUse (p : Program) (file : String) (t : AtomicType) : ReportM Unit := do
  match (← Failure.require t.reference).canonicalName with
  | none => throw .illTyped
  | some name =>
    match (← p.find name).object with
    | .definition d =>
      let text : Checked String := do return (← nameText d.name).getD "None"
      if d.parameters.length ≠ t.arguments.length then
        let text ← text
        reportGroup
          [.error file t.location
              ("Type " ++ text ++ " requires " ++ countText d.parameters.length ++ "; " ++
                countText t.arguments.length ++ " given."),
            .note name.file d.location ("Definition of type " ++ text ++ ".")]
      else checkArguments file name.file (text.toOption.getD "") 0 d.parameters t.arguments
    | _ => throw .unset

def checkTypes (p : Program) : Checked (Program × List MessageGroup) := do
  let groups ← ReportM.groups do
    for (v, l) in p.partsOf Node.placement? [.fieldLocation] do checkPlacement v.file l
    for (v, e) in p.partsOf Node.expression? [.arrayType, .expression] [.atomicType] do
      wantInteger v.file (some e) "Array size"
    for (v, f) in p.partsOf Node.field? [.field] do
      wantBoolean v.file f.existenceCondition "Existence condition"
    for (v, q) in p.partsOf Node.parameter? [.runtimeParameter] do checkParameter v.file q
    for (v, t) in p.partsOf Node.atomicType? [.atomicType] do checkTypeUse p v.file t
  return (p, groups)

end BinaryLayout.Typing
