import BinaryLayout.IR.Edit

/-!
# Commands on records

A command is a JSON array with the name of what to do, a path, and further operands.  It changes
a record and answers with JSON; most commands answer with the whole record.  A value is a scalar,
a list, an object with its kind under `@class`, or a location under `@location`.
-/

namespace BinaryLayout.IR

namespace Kind

def withName (name : String) : Checked Kind :=
  match ofName? name with
  | some kind => .ok kind
  | none => if name ∈ ["FunctionMapping", "AddressableUnit"] then .error .noEntry else .error .unset

end Kind

def FieldType.name : FieldType → String
  | .node kind => kind.name
  | .scalar .text => "str"
  | .scalar .flag => "bool"
  | .scalar .integer => "int"
  | .scalar .location => "SourceLocation"
  | .scalar .operator => "FunctionMapping"
  | .scalar .unit => "AddressableUnit"

def Container.name : Container → String
  | .single => "NONE"
  | .optional => "OPTIONAL"
  | .list => "LIST"

def FieldSpec.described (spec : FieldSpec) : Json :=
  .arr [.str spec.name, .str spec.type.name, .str spec.container.name,
    (spec.choice.map Json.str).getD .null, spec.initial.toJson false]

/-- The descriptions of the fields of the nodes with a name.  What all nodes have in common has
no fields. -/
def schemaOf (name : String) : Checked (List Json) := do
  if name.isEmpty then .error .illTyped
  if name == "Message" then return []
  return (← Kind.withName name).fields.map (·.described)

namespace Datum

mutual

def ofValue : Json → Checked Datum
  | .null => .ok .unset
  | .bool b => .ok (.flag b)
  | .int n => .ok (.integer n)
  | .real _ => .error .unset
  | .str s => .ok (.text s)
  | .arr elements => do return .list (← ofValues elements)
  | .obj members =>
    match (Json.obj members).member? "@class", (Json.obj members).member? "@location" with
    | some name, _ => do (← Kind.withName name.asText).ofJson (.obj members)
    | none, some written => do return .location (← Location.ofText written.asText)
    | none, none => .error .unset

def ofValues : List Json → Checked (List Datum)
  | [] => .ok []
  | j :: rest => do
    let first ← ofValue j
    return first :: (← ofValues rest)

end

end Datum

def Path.ofJson (j : Json) : Path :=
  (j.arr?.getD []).filterMap fun
    | .str name => some (.field name)
    | .int i => some (.index i)
    | _ => none

namespace Reading

def written : Reading → Checked Json
  | .missing _ => .ok (.obj [("unset", .bool true)])
  | .value d => d.written false

def copied : Reading → Checked Datum
  | .missing _ => .ok .unset
  | .value (.record kind members) => (Datum.record kind members).copied
  | .value d => if (d.toJson false).truth then .error .unset else .ok .unset

end Reading

/-- A value by the way it was obtained: looked up, read, or built. -/
inductive View where
  | plain (d : Datum)
  | reading (r : Reading)
  | built (d : Datum)

namespace View

/-- Whether two values are equal.  A node that was built is equal to nothing, and nodes that are
not set are equal if they are the same field. -/
def same : View → View → Bool
  | .built (.record _ _), _ | _, .built (.record _ _) => false
  | .reading (.missing s), .reading (.missing t) => s == t
  | .reading (.missing _), _ | _, .reading (.missing _) => false
  | .plain a, .plain b | .plain a, .built b | .plain a, .reading (.value b)
  | .built a, .plain b | .built a, .built b | .built a, .reading (.value b)
  | .reading (.value a), .plain b | .reading (.value a), .built b
  | .reading (.value a), .reading (.value b) => a.declared.same b.declared

def obtain (way : String) (path : Path) (d : Datum) : Datum × Checked View :=
  match way with
  | "read" => (d, .reading <$> (Reading.value d).lookUp path)
  | "build" => let (d, found) := d.build path; (d, .built <$> found)
  | _ => (d, .plain <$> d.lookUp path)

end View

namespace Command

/-- The answer of a command that changes a record: the record after it. -/
def whole (outcome : Datum × Checked Unit) : Datum × Checked Json :=
  (outcome.1, do outcome.2; outcome.1.written false)

def about (path : Path) (ask : Datum → Checked Json) (d : Datum) : Datum × Checked Json :=
  let (d, found) := d.build path
  (d, do ask (← found))

def truth (b : Bool) : Json :=
  .bool b

def names (l : List String) : Json :=
  .arr (l.map .str)

def rebuilt (isList : Bool) : Datum → Checked Json
  | .record kind members => (Datum.record kind members).written false
  | .list elements => if isList then (Datum.list elements).written false else .error .illTyped
  | _ => .error .illTyped

def listing : Datum → Checked Json
  | .record kind members => (Datum.record kind members).written true
  | .unset => .error .invariant
  | _ => .error .unset

def compare (path other : Path) (way otherWay : String) (d : Datum) : Datum × Checked Json :=
  match View.obtain way path d with
  | (d, .error f) => (d, .error f)
  | (d, .ok a) =>
    let (d, b) := View.obtain otherWay other d
    (d, do
      let equal := a.same (← b)
      return .arr [.bool equal, .bool !equal])

def withValue (value : Checked Datum) (act : Datum → Datum → Datum × Checked Json) (d : Datum) :
    Datum × Checked Json :=
  match value with
  | .ok value => act value d
  | .error f => (d, .error f)

def changeCopy (path : Path) (value d : Datum) : Checked Json := do
  let copy ← d.copied
  let (changed, done) := copy.assign path value
  done
  return .arr [.bool (changed.declared.same d.declared), ← changed.written false]

def apply (name : String) (path : Path) (operands : List Json) (d : Datum) :
    Datum × Checked Json :=
  let first := operands.headD .null
  let second := (operands.drop 1).headD .null
  let value := Datum.ofValue first
  match name with
  | "get" => (d, do (← d.lookUp path).written false)
  | "read" => (d, do (← (Reading.value d).lookUp path).written)
  | "build" => about path (·.written false) d
  | "has" => (d, do return truth (← (← d.lookUp path).has first.asText))
  | "build_has" => about path (fun found => truth <$> found.has first.asText) d
  | "read_has" => (d, do return truth (← (← (Reading.value d).lookUp path).has first.asText))
  | "set" => withValue value (fun value d => whole (d.assign path value)) d
  | "set_read" => (d, do
      let _ ← (Reading.value d).lookUp path.dropLast
      .error .unset)
  | "copy_from" =>
    withValue value (fun value d => whole (d.change path fun _ => Datum.copyFrom value)) d
  | "copy_from_path" =>
    match (Reading.value d).lookUp (Path.ofJson first) with
    | .ok (.value template) => whole (d.change path fun _ => Datum.copyFrom template)
    | .ok (.missing _) => whole (d.change path fun _ => Datum.copyFrom .unset)
    | .error f => ((d.build path).1, .error f)
  | "extend" =>
    withValue value (fun value d =>
      match value.asElements with
      | .ok values => whole (d.change path (Datum.appendAll values))
      | .error f => ((d.build path).1, .error f)) d
  | "append" =>
    withValue value (fun value d => whole (d.changePresent path (Datum.appendAll [value]))) d
  | "insert" =>
    withValue (Datum.ofValue second) (fun value d =>
      match first.number? with
      | some index => whole (d.change path (Datum.insertAll index [value]))
      | none => ((d.build path).1, .error .illTyped)) d
  | "delete" => whole (d.remove path)
  | "set_item" => withValue value (fun value d => whole (d.setElement path value)) d
  | "replace" => whole (d.changePresent path fun _ => Datum.reread first)
  | "copy_then_set" => (d, do changeCopy path (← value) d)
  | "dict" => (d, do listing (← d.lookUp path))
  | "rebuild" => about path (rebuilt true) d
  | "build_at" => (d, do rebuilt false (← d.lookUp path))
  | "length" => about path (fun found => do return .int (← found.size)) d
  | "equal" =>
    compare path (Path.ofJson first) second.asText ((operands.drop 2).headD .null).asText d
  | "repr" => (d, do return .str (← d.lookUp path).debugText)
  | "repr_list" => about path (fun found => .ok (.str found.debugText)) d
  | "copy_read" => (d, do (← (← (Reading.value d).lookUp path).copied).written false)
  | "read_fields" => (d, do return names (← (← (Reading.value d).lookUp path).setFields))
  | "set_fields" => (d, do return names (← (← d.lookUp path).setFields))
  | _ => (d, .error .malformed)

def run (command : Json) (d : Datum) : Datum × Checked Json :=
  match command with
  | .arr (.str name :: path :: operands) => apply name (Path.ofJson path) operands d
  | .arr [.str name] => apply name [] [] d
  | _ => (d, .error .malformed)

/-- Apply commands one after another; a command that fails leaves what it did before. -/
def runAll : List Json → Datum → List (Checked Json)
  | [], _ => []
  | command :: rest, d =>
    let (changed, answer) := run command d
    answer :: runAll rest changed

end Command

end BinaryLayout.IR
