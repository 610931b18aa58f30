import BinaryLayout.IR.Property
import BinaryLayout.IR.Walk
import BinaryLayout.Diagnostic.Report

/-!
# Rules for attributes

Who reads a definition says which attributes may be set where, and what they may be set to.  The
front end has rules for attributes without a qualifier; a back end has some for attributes that
are qualified with its name.
-/

namespace BinaryLayout.Attributes

open IR

abbrev ValueCheck := String → Attribute → Checked (List MessageGroup)

/-- An attribute that may be set: its name, and whether it is set as a default. -/
abbrev Allowed := String × Bool

/-- Which attributes may be set. -/
structure Rules where
  backEnd : Option String := none
  /-- What each attribute may be set to. -/
  checks : List (String × ValueCheck)
  onModule : List Allowed := []
  onStruct : List Allowed := []
  onBits : List Allowed := []
  onEnum : List Allowed := []
  onEnumValue : List Allowed := []
  onExternal : List Allowed := []
  onVirtualField : List Allowed := []
  onPhysicalField : List Allowed := []

/-- The back end that an attribute is for; empty if there is none. -/
def backEndText (a : Attribute) : String :=
  (a.backEnd.bind (·.text)).getD ""

def nameForMessage (a : Attribute) : Checked String := do
  let name := (← requiredText a.name).getD "None"
  let backEnd := backEndText a
  return if backEnd.isEmpty then name else "(" ++ backEnd ++ ") " ++ name

def valueLocation (a : Attribute) : Checked (Option Location) := do
  return (← Failure.require a.value).location

def expressionOf (a : Attribute) : Checked Expression := do
  Failure.require (← Failure.require a.value).expression?

def wrongValue (file : String) (a : Attribute) (kind : String) : Checked (List MessageGroup) := do
  return [[.error file (← valueLocation a)
    ("Attribute '" ++ (← nameForMessage a) ++ "' must have " ++ kind ++ " value.")]]

def constantBoolean : ValueCheck := fun file a => do
  match ← Failure.require (← expressionOf a).type with
  | .boolean known =>
    if known.value.isSome then return []
    wrongValue file a "a constant boolean"
  | _ => throw .unset

def boolean : ValueCheck := fun file a => do
  match ← Failure.require (← expressionOf a).type with
  | .boolean _ => return []
  | _ => wrongValue file a "a boolean"

def constantInteger : ValueCheck := fun file a => do
  match (← Failure.require a.value).expression? with
  | none => wrongValue file a "an integer"
  | some e =>
    match ← Failure.require e.type with
    | .integer _ =>
      if ← e.isConstant then return []
      return [[.error file (← valueLocation a)
        ("Attribute '" ++ (← nameForMessage a) ++ "' must have a constant value.")]]
    | _ => wrongValue file a "an integer"

def string : ValueCheck := fun file a => do
  match (← Failure.require a.value).string? with
  | some _ => return []
  | none => wrongValue file a "a string"

def oneOf (values : List String) : ValueCheck := fun file a => do
  let text := ((a.value.bind (·.string?)).bind (·.text)).getD ""
  if values.contains text then return []
  return [[.error file (← valueLocation a)
    ("Attribute '" ++ (← nameForMessage a) ++ "' must be '" ++
      String.intercalate "' or '" values ++ "'.")]]

def keyOf (a : Attribute) : Allowed :=
  ((a.name.bind (·.text)).getD "", a.isDefault.getD false)

namespace Rules

def concerns (rules : Rules) (a : Attribute) : Bool :=
  let backEnd := backEndText a
  if backEnd.isEmpty then rules.backEnd.isNone else rules.backEnd == some backEnd

def checkOne (rules : Rules) (allowed : List Allowed) (context file : String)
    (seen : List Attribute) (a : Attribute) : Checked (List MessageGroup) := do
  let name ← nameForMessage a
  match seen.find? fun b => keyOf b == keyOf a with
  | some first =>
    return [[.error file a.location ("Duplicate attribute '" ++ name ++ "'."),
      .note file first.location "Original attribute"]]
  | none =>
    if allowed.contains (keyOf a) then
      match rules.checks.lookup (keyOf a).1 with
      | some check => check file a
      | none => throw .noEntry
    else
      let word ← Failure.require a.name
      let text := if a.isDefault.getD false then
          "Attribute '" ++ name ++ "' may not be defaulted on " ++ context ++ "."
        else "Unknown attribute '" ++ name ++ "' on " ++ context ++ "."
      return [[.error file word.location text]]

def checkList (rules : Rules) (allowed : List Allowed) (context file : String)
    (attributes : List Attribute) : ReportM Unit := do
  let concerned := attributes.filter rules.concerns
  let mut seen : List Attribute := []
  for a in concerned do
    for group in ← rules.checkOne allowed context file seen a do reportGroup group
    if (seen.find? fun b => keyOf b == keyOf a).isNone then seen := seen ++ [a]

def contextName (kind : String) (name : Option NameDefinition) : Checked String := do
  return kind ++ " '" ++ (← nameText name).getD "None" ++ "'"
where
  nameText (n : Option NameDefinition) : Checked (Option String) := do
    requiredText (← Failure.require n).name

def checkType (rules : Rules) (file : String) (t : TypeDefinition) : ReportM Unit := do
  match t.body with
  | .record _ =>
    match t.unit with
    | some .byte =>
      rules.checkList rules.onStruct (← contextName "struct" t.name) file t.attributes
    | some .bit => rules.checkList rules.onBits (← contextName "bits" t.name) file t.attributes
    | _ => throw .invariant
  | .enumeration _ =>
    rules.checkList rules.onEnum (← contextName "enum" t.name) file t.attributes
  | .external _ =>
    rules.checkList rules.onExternal (← contextName "external" t.name) file t.attributes
  | .unset => return

def checkField (rules : Rules) (file : String) (f : Field) : ReportM Unit := do
  if f.isVirtual then
    let context ← contextName "virtual struct field" f.name
    rules.checkList rules.onVirtualField context file f.attributes
  else
    rules.checkList rules.onPhysicalField (← contextName "struct field" f.name) file f.attributes

def check (rules : Rules) (p : Program) : Checked (List MessageGroup) :=
  ReportM.groups do
    for m in p.modules do
      let context := "module '" ++ m.fileName.getD "None" ++ "'"
      rules.checkList rules.onModule context (m.fileName.getD "") m.attributes
    for (v, t) in p.partsOf Node.typeDefinition? [.typeDefinition] do rules.checkType v.file t
    for (v, f) in p.partsOf Node.field? [.field] do rules.checkField v.file f
    for (v, e) in p.partsOf Node.enumValue? [.enumValue] do
      rules.checkList rules.onEnumValue (← contextName "enum value" e.name) v.file e.attributes

end Rules

end BinaryLayout.Attributes
