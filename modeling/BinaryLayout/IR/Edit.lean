import BinaryLayout.IR.Access

/-!
# Editing records

`Datum.follow` applies an action at the end of a path, on the way creating what is missing if it
is told to; what was created stays even if the action fails.  The other definitions are the
actions: setting a field, taking over the fields of another record, and changing lists.

A field takes values of its type only, but a member of a choice takes any value.  A record with
a value of the wrong type can be edited further and cannot be written (`Datum.writable`).
-/

namespace BinaryLayout.IR

def FieldType.admits : FieldType → Datum → Bool
  | .node kind, .record other _ => kind == other
  | .scalar .text, .text _ => true
  | .scalar .flag, .flag _ => true
  | .scalar .integer, d => d.number?.isSome
  | .scalar .location, .location _ => true
  | .scalar .operator, .operator _ => true
  | .scalar .unit, .unit _ => true
  | _, _ => false

namespace FieldSpec

/-- Whether a field takes a value.  Operators and units can be given by number. -/
def accepts (spec : FieldSpec) (value : Datum) : Bool :=
  spec.type.admits value || spec.choice.isSome ||
    match spec.container, spec.type, value with
    | .optional, _, .unset => true
    | .list, _, .list _ => true
    | _, .scalar .operator, .flag _ | _, .scalar .operator, .integer _ => true
    | _, .scalar .unit, .flag _ | _, .scalar .unit, .integer _ => true
    | _, _, _ => false

end FieldSpec

namespace Datum

def asElements : Datum → Checked (List Datum)
  | .list elements => .ok elements
  | .text s => .ok (s.toList.map fun c => .text (String.singleton c))
  | d => if d.number? == some 0 then .ok [] else .error .illTyped

mutual

/-- Whether a value can be written: nodes are records, and lists of nodes are lists of
records. -/
def writable : Datum → Checked Unit
  | .record kind members => writableMembers kind members
  | .list elements => writableElements false elements
  | _ => .ok ()

def writableMembers (kind : Kind) : List (String × Datum) → Checked Unit
  | [] => .ok ()
  | (name, value) :: rest => do
    match kind.field? name with
    | none => pure ()
    | some spec => if spec.kind?.isSome then writableNode spec.isList value
    writableMembers kind rest

def writableNode (isList : Bool) : Datum → Checked Unit
  | .unset => .ok ()
  | .record kind members => if isList then .error .illTyped else writableMembers kind members
  | .list elements => if isList then writableElements true elements else .error .unset
  | _ => if isList then .error .illTyped else .error .unset

def writableElements (nodes : Bool) : List Datum → Checked Unit
  | [] => .ok ()
  | .record kind members :: rest => do
    writableMembers kind members
    writableElements nodes rest
  | .unset :: rest => if nodes then .error .invariant else writableElements nodes rest
  | _ :: rest => if nodes then .error .unset else writableElements nodes rest

end

def written (full : Bool) (d : Datum) : Checked Json := do
  d.writable
  return d.toJson full

mutual

def copied : Datum → Checked Datum
  | .record kind members => do return .record kind (← copiedMembers kind members)
  | _ => .error .unset

def copiedMembers (kind : Kind) : List (String × Datum) → Checked (List (String × Datum))
  | [] => .ok []
  | (name, value) :: rest =>
    match kind.field? name with
    | none => copiedMembers kind rest
    | some spec => do
      let value ← copiedField spec value
      return (name, value) :: (← copiedMembers kind rest)

def copiedField (spec : FieldSpec) : Datum → Checked Datum
  | .unset => .ok .unset
  | .record kind members =>
    match spec.kind?, spec.isList with
    | some _, false => do return .record kind (← copiedMembers kind members)
    | some _, true => .error .illTyped
    | none, _ => .ok (.record kind members)
  | .list elements =>
    match spec.kind?, spec.isList with
    | some _, true => do return .list (← copiedElements elements)
    | some _, false => .error .unset
    | none, _ => .ok (.list elements)
  | d =>
    match spec.kind?, spec.isList with
    | some _, true => .error .illTyped
    | some _, false => .error .unset
    | none, true => .list <$> d.asElements
    | none, false => .ok d

def copiedElements : List Datum → Checked (List Datum)
  | [] => .ok []
  | .record kind members :: rest => do
    let members ← copiedMembers kind members
    return .record kind members :: (← copiedElements rest)
  | _ :: _ => .error .unset

end

mutual

def declared : Datum → Datum
  | .record kind members => .record kind (declaredMembers kind members)
  | .list elements => .list (declaredElements elements)
  | d => d

def declaredMembers (kind : Kind) : List (String × Datum) → List (String × Datum)
  | [] => []
  | (name, value) :: rest =>
    if (kind.field? name).isSome then (name, value.declared) :: declaredMembers kind rest
    else declaredMembers kind rest

def declaredElements : List Datum → List Datum
  | [] => []
  | d :: rest => d.declared :: declaredElements rest

end

/-- Store a value under a name.  A member of a choice that gets a value replaces the others. -/
def put (d : Datum) (name : String) (value : Datum) : Datum :=
  match d with
  | .record kind members =>
    let choice := (kind.field? name).bind (·.choice)
    let members :=
      if choice.isSome && value.isSet then
        members.map fun (other, v) =>
          (other, if ((kind.field? other).bind (·.choice)) == choice then .unset else v)
      else members
    if members.any (·.1 == name) then
      .record kind (members.map fun (other, v) => (other, if other == name then value else v))
    else .record kind (members ++ [(name, value)])
  | d => d

/-- Set a field of a record.  Names that are not in the schema are kept and never written. -/
def assignField (d : Datum) (name : String) (value : Datum) : Datum × Checked Unit :=
  match d with
  | .record kind _ =>
    match kind.field? name with
    | some spec => if spec.accepts value then (d.put name value, .ok ()) else (d, .error .unset)
    | none => (d.put name value, .ok ())
  | .list _ => (d, .ok ())
  | _ => (d, .error .unset)

/-- Set fields one after another up to the first that does not take its value. -/
def assignFields : List (String × Datum) → Datum → Datum × Checked Unit
  | [], d => (d, .ok ())
  | (name, value) :: rest, d =>
    match d.assignField name value with
    | (d, .ok ()) => assignFields rest d
    | failed => failed

/-- Take over copies of all fields that are set in another record. -/
def copyFrom (template d : Datum) : Datum × Checked Unit :=
  match d, template with
  | .record _ _, .record _ _ =>
    match template.copied with
    | .ok (.record _ members) => assignFields (members.filter (·.2.isSet)) d
    | .ok _ => (d, .ok ())
    | .error f => (d, .error f)
  | .record _ _, other =>
    if (other.toJson false).truth then (d, .error .unset) else (d, .ok ())
  | _, _ => (d, .error .unset)

def reread (data : Json) : Datum → Datum × Checked Unit
  | .record kind members =>
    match kind.ofJson data with
    | .ok (.record _ fresh) =>
      (.record kind (fresh ++ members.filter fun m => (kind.field? m.1).isNone), .ok ())
    | .ok _ => (.record kind members, .ok ())
    | .error f => (.record kind members, .error f)
  | .unset => (.unset, .error .invariant)
  | d => (d, .error .noEntry)

def asText : Datum → String
  | .text s => s
  | .location l => l.text
  | .operator o => "FunctionMapping." ++ o.name
  | .unit u => "AddressableUnit." ++ u.name
  | d => d.debugText

end Datum

/-- A value as an element of the list that a field holds.  Nodes are copied, and scalars are
converted to the type of the elements.  A node that is given as a scalar gets it as its first
field. -/
def FieldSpec.element (spec : FieldSpec) (value : Datum) : Checked Datum :=
  match value, spec.type with
  | .record _ _, _ => value.copied
  | _, .scalar .text => .ok (.text value.asText)
  | .text s, .scalar .integer =>
    match Text.readInteger s with
    | some n => .ok (.integer n)
    | none => .error .malformed
  | _, .scalar .integer =>
    match value.number? with
    | some n => .ok (.integer n)
    | none => .error .illTyped
  | _, .scalar _ => .ok value
  | _, .node kind =>
    match kind.fields with
    | [] => .error .illTyped
    | first :: _ =>
      if first.accepts value then .ok (kind.blank.put first.name value) else .error .unset

namespace Datum

/-- A value as an element of a list; if the list is a field, of its type. -/
def elementOf (spec : Option FieldSpec) (value : Datum) : Checked Datum :=
  match spec with
  | some spec => spec.element value
  | none => .ok value

def insertion (length : Nat) (index : Int) : Nat :=
  if index < 0 then (index + length).toNat else min index.toNat length

def insertAll (index : Int) (values : List Datum) (spec : Option FieldSpec) :
    Datum → Datum × Checked Unit
  | .list elements =>
    match values.mapM (elementOf spec) with
    | .ok values =>
      let i := insertion elements.length index
      (.list (elements.take i ++ values ++ elements.drop i), .ok ())
    | .error f => (.list elements, .error f)
  | d => (d, .error .unset)

def appendAll (values : List Datum) (spec : Option FieldSpec) (d : Datum) :
    Datum × Checked Unit :=
  insertAll d.elements.length values spec d

def changeAt (key : Key) (change : Nat → List Datum → List Datum) : Datum → Datum × Checked Unit
  | .list elements =>
    match key with
    | .field _ => (.list elements, .error .illTyped)
    | .index i =>
      match Json.position? elements.length i with
      | some i => (.list (change i elements), .ok ())
      | none => (.list elements, .error .outOfRange)
  | d => (d, .error .illTyped)

def size : Datum → Checked Nat
  | .list elements => .ok elements.length
  | .text s => .ok s.length
  | .location _ => .ok 4
  | _ => .error .illTyped

/-- Apply an action to the value at the end of a path.  The action is told of which field the
value is, if the path ends with a field.  With `create`, what is not set on the way gets its
initial value, and only fields of the schema are found. -/
def follow {α : Type} (create : Bool) (act : Option FieldSpec → Datum → Datum × Checked α) :
    Path → Option FieldSpec → Datum → Datum × Checked α
  | [], spec, d => act spec d
  | key :: rest, _, .location l =>
    (.location l, do (act none (← locationPart l (key :: rest))).2)
  | .field name :: rest, _, .record kind members =>
    let d := Datum.record kind members
    match kind.field? name, members.lookup name with
    | some spec, found =>
      let found := found.getD .unset
      let found := if create && !found.isSet then spec.initial else found
      let (changed, answer) := follow create act rest (some spec) found
      (d.put name changed, answer)
    | none, some found =>
      if create then (d, .error .unset)
      else
        let (changed, answer) := follow create act rest none found
        (d.put name changed, answer)
    | none, none =>
      if create then (d, .error .unset)
      else
        match d.named name with
        | .ok found => (d, (follow create act rest none found).2)
        | .error f => (d, .error f)
  | .field _ :: _, _, d => (d, .error .unset)
  | .index i :: rest, _, .list elements =>
    match (Json.position? elements.length i).bind fun i => elements[i]?.map (i, ·) with
    | some (i, found) =>
      let (changed, answer) := follow create act rest none found
      (.list (elements.set i changed), answer)
    | none => (.list elements, .error .outOfRange)
  | .index i :: rest, _, d =>
    match d.element i with
    | .ok found => (d, (follow create act rest none found).2)
    | .error f => (d, .error f)

def build (path : Path) (d : Datum) : Datum × Checked Datum :=
  follow true (fun _ found => (found, .ok found)) path none d

def change (path : Path) (act : Option FieldSpec → Datum → Datum × Checked Unit) (d : Datum) :
    Datum × Checked Unit :=
  follow true act path none d

def changePresent (path : Path) (act : Option FieldSpec → Datum → Datum × Checked Unit)
    (d : Datum) : Datum × Checked Unit :=
  follow false act path none d

def changeBeforeLast (path : Path) (act : Key → Datum → Datum × Checked Unit) (d : Datum) :
    Datum × Checked Unit :=
  match path.getLast? with
  | none => (d, .error .outOfRange)
  | some key => d.change path.dropLast fun _ => act key

def assign (d : Datum) (path : Path) (value : Datum) : Datum × Checked Unit :=
  d.changeBeforeLast path fun key parent =>
    match key with
    | .field name => parent.assignField name value
    | .index _ => (parent, .error .illTyped)

def remove (d : Datum) (path : Path) : Datum × Checked Unit :=
  d.changeBeforeLast path fun key => changeAt key fun i elements => elements.eraseIdx i

def setElement (d : Datum) (path : Path) (value : Datum) : Datum × Checked Unit :=
  d.changeBeforeLast path fun key => changeAt key fun i elements => elements.set i value

end Datum

end BinaryLayout.IR
