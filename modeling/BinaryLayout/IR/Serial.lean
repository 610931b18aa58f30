import BinaryLayout.IR.Record
import BinaryLayout.Json.Basic
import BinaryLayout.Text.Quoted

/-!
# Records as JSON

A record is written as an object with the fields that are set; locations are texts, operators and
units are numbers.  Reading ignores members that the kind does not have and those that are null,
and takes operators and units by name too.
-/

namespace BinaryLayout

namespace Json

mutual

def shown : Json → String
  | .null => "None"
  | .bool b => if b then "True" else "False"
  | .int n => Text.decimal n
  | .real text => text
  | .str s => Text.quoted s
  | .arr elements => "[" ++ shownElements elements ++ "]"
  | .obj members => "\x7b" ++ shownMembers members ++ "\x7d"

def shownElements : List Json → String
  | [] => ""
  | [e] => e.shown
  | e :: rest => e.shown ++ ", " ++ shownElements rest

def shownMembers : List (String × Json) → String
  | [] => ""
  | [(k, v)] => Text.quoted k ++ ": " ++ v.shown
  | (k, v) :: rest => Text.quoted k ++ ": " ++ v.shown ++ ", " ++ shownMembers rest

end

/-- Whether a value counts as true. -/
def truth : Json → Bool
  | .null => false
  | .bool b => b
  | .int n => n != 0
  | .real text => text.toList.any fun c => c != '0' && c != '.' && c != '-'
  | .str s => !s.isEmpty
  | .arr elements => !elements.isEmpty
  | .obj members => !members.isEmpty

/-- A value as text; a text stands for itself. -/
def asText : Json → String
  | .str s => s
  | j => j.shown

def number? : Json → Option Int
  | .bool b => some (if b then 1 else 0)
  | .int n => some n
  | _ => none

end Json

namespace IR

namespace Datum

mutual

/-- A value as JSON; with `full` also the fields that are not set. -/
def toJson (full : Bool) : Datum → Json
  | .unset => .null
  | .text s => .str s
  | .flag b => .bool b
  | .integer n => .int n
  | .location l => .str l.text
  | .operator o => .int o.number
  | .unit u => .int u.bits
  | .record kind members => .obj (membersToJson full kind members)
  | .list elements => .arr (elementsToJson full elements)

def elementsToJson (full : Bool) : List Datum → List Json
  | [] => []
  | e :: rest => e.toJson full :: elementsToJson full rest

def membersToJson (full : Bool) (kind : Kind) : List (String × Datum) → List (String × Json)
  | [] => []
  | (name, value) :: rest =>
    if (value.isVacant && !full) || (kind.field? name).isNone then membersToJson full kind rest
    else (name, value.toJson full) :: membersToJson full kind rest

end

end Datum

def readCode {α : Type} (ofName? : String → Option α) (ofNumber? : Int → Option α) :
    Json → Checked α
  | .str s => Failure.require (ofName? s)
  | j =>
    match j.number?.bind ofNumber? with
    | some a => .ok a
    | none => .error .malformed

def Scalar.ofJson (s : Scalar) (j : Json) : Checked Datum :=
  match s with
  | .text => .ok (.text j.asText)
  | .flag => .ok (.flag j.truth)
  | .integer =>
    match j.number? with
    | some n => .ok (.integer n)
    | none => .error .illTyped
  | .location =>
    match j with
    | .str written => do return .location (← Location.ofText written)
    | _ => .error .malformed
  | .operator => do return .operator (← readCode Operator.ofName? Operator.ofNumber? j)
  | .unit => do return .unit (← readCode AddressableUnit.ofName? AddressableUnit.ofBits? j)

def Datum.ofElement : Json → Datum
  | .str s => .text s
  | .int n => .integer n
  | .bool b => .flag b
  | .null => .unset
  | j => .text j.shown

/-- The elements of a list of scalars.  A text is a list of its characters where texts are
asked for. -/
def Scalar.listOfJson (s : Scalar) : Json → Checked Datum
  | .arr elements => .ok (.list (elements.map Datum.ofElement))
  | .str written =>
    if s = .text then .ok (.list (written.toList.map fun c => .text (String.singleton c)))
    else .error .unset
  | .int n =>
    if s = .integer then if n = 0 then .ok (.list []) else .error .illTyped else .error .unset
  | .bool b =>
    if s = .integer then if b then .error .illTyped else .ok (.list []) else .error .unset
  | _ => .error .unset

def FieldSpec.blank (spec : FieldSpec) : Datum :=
  match spec.container with
  | .list => .list []
  | .optional => .unset
  | .single => .text ""

/-- Of the members of a choice only the last one that is set stays set. -/
def settleChoices (specs : List FieldSpec) : List (String × Datum) → List (String × Datum)
  | [] => []
  | (name, value) :: rest =>
    let choice := (specs.find? (·.name == name)).bind (·.choice)
    let rivals := specs.filter fun s => choice.isSome && s.choice == choice
    let overruled := rest.any fun (other, v) => v.isSet && rivals.any (·.name == other)
    (name, if overruled then .unset else value) :: settleChoices specs rest

/-- A record from what was read for the fields that are mentioned; of several values for one
field the last one counts. -/
def Kind.assemble (kind : Kind) (read : List (String × Checked Datum)) : Checked Datum := do
  let members ← kind.fields.mapM fun spec => do
    match read.reverse.lookup spec.name with
    | none => return (spec.name, spec.blank)
    | some value =>
      let value ← value
      return (spec.name, if value.isSet then value else spec.blank)
  return .record kind (settleChoices kind.fields members)

mutual

def Kind.ofJson (kind : Kind) : Json → Checked Datum
  | .obj members => kind.assemble (Kind.membersOfJson kind members)
  | _ => .error .unset

def Kind.membersOfJson (kind : Kind) : List (String × Json) → List (String × Checked Datum)
  | [] => []
  | (name, value) :: rest =>
    match kind.field? name with
    | none => Kind.membersOfJson kind rest
    | some spec => (name, FieldSpec.ofJson spec value) :: Kind.membersOfJson kind rest

def FieldSpec.ofJson (spec : FieldSpec) : Json → Checked Datum
  | .null => .ok .unset
  | .arr elements =>
    match spec.type, spec.isList with
    | .node kind, true => do return .list (← Kind.allOfJson kind elements)
    | .node _, false => .error .unset
    | .scalar s, true => s.listOfJson (.arr elements)
    | .scalar s, false => s.ofJson (.arr elements)
  | .obj members =>
    match spec.type, spec.isList with
    | .node kind, false => kind.assemble (Kind.membersOfJson kind members)
    | .node _, true => if members.isEmpty then .ok (.list []) else .error .unset
    | .scalar s, true => s.listOfJson (.obj members)
    | .scalar s, false => s.ofJson (.obj members)
  | .str text =>
    match spec.type, spec.isList with
    | .node _, true => if text.isEmpty then .ok (.list []) else .error .unset
    | .node _, false => .error .unset
    | .scalar s, true => s.listOfJson (.str text)
    | .scalar s, false => s.ofJson (.str text)
  | j =>
    match spec.type, spec.isList with
    | .node _, true => .error .illTyped
    | .node _, false => .error .unset
    | .scalar s, true => s.listOfJson j
    | .scalar s, false => s.ofJson j

def Kind.allOfJson (kind : Kind) : List Json → Checked (List Datum)
  | [] => .ok []
  | j :: rest => do
    let first ← Kind.ofJson kind j
    return first :: (← Kind.allOfJson kind rest)

end

end IR

end BinaryLayout
