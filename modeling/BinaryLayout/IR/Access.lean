import BinaryLayout.IR.Debug
import BinaryLayout.IR.Serial
import BinaryLayout.Json.Edit

/-!
# Looking into records

A path leads from a record to a value inside it.  `Datum.lookUp` follows a path through what is
there.  `Reading.lookUp` follows it also through what is missing: below a node that is not set
every list is empty, every scalar has its initial value, and no node is set.
-/

namespace BinaryLayout.IR

/-- One step of a path: into a field or to an element of a list. -/
inductive Key where
  | field (name : String)
  /-- Negative indexes count from the end. -/
  | index (i : Int)
deriving DecidableEq

abbrev Path := List Key

namespace Kind

def choices (k : Kind) : List String :=
  (k.fields.filterMap (·.choice)).eraseDups

def blank (k : Kind) : Datum :=
  .record k (k.fields.map fun spec => (spec.name, spec.blank))

end Kind

namespace FieldSpec

def initial (spec : FieldSpec) : Datum :=
  if spec.isList then .list []
  else
    match spec.type with
    | .node kind => kind.blank
    | .scalar .text => .text ""
    | .scalar .flag => .flag false
    | .scalar .integer => .integer 0
    | .scalar .location => .location Location.unknown
    | .scalar .operator => .operator .unknown
    | .scalar .unit => .unit .none

def aspect (spec : FieldSpec) (name : String) : Checked Datum :=
  match name with
  | "name" => .ok (.text spec.name)
  | "oneof" => .ok ((spec.choice.map Datum.text).getD .unset)
  | "is_dataclass" => .ok (.flag spec.kind?.isSome)
  | "is_sequence" => .ok (.flag spec.isList)
  | "is_enum" => .ok (.flag (spec.type == .scalar .operator || spec.type == .scalar .unit))
  | "is_oneof" => .ok (.flag spec.choice.isSome)
  | _ => .error .unset

end FieldSpec

def positionPart (p : Position) : Path → Checked Datum
  | [] => .ok (.text p.text)
  | [.field "line"] => .ok (.integer p.line)
  | [.field "column"] => .ok (.integer p.column)
  | _ => .error .unset

def locationPart (l : Location) : Path → Checked Datum
  | [] => .ok (.location l)
  | .field "start" :: rest => positionPart l.start rest
  | .field "end" :: rest => positionPart l.stop rest
  | [.field "is_disjoint_from_parent"] => .ok (.flag l.isDisjoint)
  | [.field "is_synthetic"] => .ok (.flag l.isSynthetic)
  | _ => .error .unset

namespace Datum

def selected (choice : String) : Datum → Option String
  | .record kind members =>
    (members.find? fun (name, value) =>
      value.isSet && ((kind.field? name).bind (·.choice)) == some choice).map (·.1)
  | _ => none

/-- What a value holds under a name.  Next to its fields a record tells for each choice which
member is set. -/
def named (name : String) : Datum → Checked Datum
  | .record kind members =>
    match members.lookup name with
    | some value => .ok value
    | none =>
      match kind.choices.find? fun choice => "which_" ++ choice == name with
      | some choice => .ok ((((Datum.record kind members).selected choice).map text).getD .unset)
      | none => .error .unset
  | _ => .error .unset

def element (i : Int) : Datum → Checked Datum
  | .list elements =>
    match (Json.position? elements.length i).bind fun i => elements[i]? with
    | some e => .ok e
    | none => .error .outOfRange
  | .text s =>
    match (Json.position? s.length i).bind fun i => s.toList[i]? with
    | some c => .ok (.text (String.singleton c))
    | none => .error .outOfRange
  | _ => .error .illTyped

/-- The value one step inside a value. -/
def child : Key → Datum → Checked Datum
  | .field name, d => d.named name
  | .index i, d => d.element i

def lookUp (d : Datum) : Path → Checked Datum
  | [] => .ok d
  | key :: rest =>
    match d with
    | .location l => locationPart l (key :: rest)
    | d => do (← d.child key).lookUp rest

def has (name : String) : Datum → Checked Bool
  | .record kind members =>
    match (Datum.record kind members).named name with
    | .ok value => .ok value.isSet
    | .error _ => .ok false
  | _ => .error .unset

def setFields : Datum → Checked (List String)
  | .unset => .ok []
  | .record kind members =>
    .ok ((members.filter fun (name, value) => value.isSet && (kind.field? name).isSome).map (·.1))
  | _ => .error .unset

end Datum

/-- What reading finds: a value, or that a node is not set. -/
inductive Reading where
  | value (d : Datum)
  /-- The node of a field that is not set. -/
  | missing (spec : FieldSpec)

namespace Reading

def ofSpec (spec : FieldSpec) : Reading :=
  match spec.kind?, spec.isList with
  | some _, false => .missing spec
  | _, _ => .value spec.initial

def field (name : String) : Reading → Checked Reading
  | .missing spec =>
    match spec.kind?.bind (·.field? name) with
    | some inner => .ok (ofSpec inner)
    | none => if name.startsWith "which_" then .ok (.value .unset) else .value <$> spec.aspect name
  | .value (.record kind members) =>
    match kind.field? name, (members.lookup name).getD .unset with
    | some spec, .unset => .ok (ofSpec spec)
    | some _, found => .ok (.value found)
    | none, _ => .value <$> (Datum.record kind members).named name
  | .value d => .value <$> d.named name

def child : Key → Reading → Checked Reading
  | .field name, r => r.field name
  | .index i, .value d => .value <$> d.element i
  | .index _, .missing _ => .error .illTyped

def lookUp (r : Reading) : Path → Checked Reading
  | [] => .ok r
  | key :: rest =>
    match r with
    | .value (.location l) => .value <$> locationPart l (key :: rest)
    | r => do (← r.child key).lookUp rest

def has (name : String) : Reading → Checked Bool
  | .missing _ => .ok false
  | .value d => d.has name

def setFields : Reading → Checked (List String)
  | .missing _ => .ok []
  | .value d => d.setFields

end Reading

end BinaryLayout.IR
