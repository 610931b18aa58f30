import BinaryLayout.Attributes.Complete
import BinaryLayout.Cpp.Expression
import BinaryLayout.Cpp.Fragment.ViewType

/-!
# The types of views

A field is read and written through a view.  The type of the view depends on the type of the
field, on its size, and on how its bytes are reached from the structure around it.
-/

namespace BinaryLayout.Cpp

open IR

/-- How a field is reached from the structure around it. -/
structure Access where
  storage : String
  /-- The unit of the structure around the field. -/
  unit : AddressableUnit
  byteOrder : String
  /-- The class that tells which values the field may have. -/
  validator : String

def offsetStorage (storage alignment offset : String) : String :=
  storage ++ "::template OffsetStorageType</**/" ++ alignment ++ ", " ++ offset ++ ">"

def bitStorage (storage byteOrder size : String) : String :=
  "::emboss::support::BitBlock</**/::emboss::support::" ++ byteOrder ++ "ByteOrderer<typename " ++
    storage ++ ">, " ++ size ++ ">"

/-- A size as it is written; nothing is known of one that is not constant. -/
def sizeText (size : Option Constant) : String :=
  (size.map Constant.text).getD "None"

/-- The storage for a type in a field: the bits of the field if it is counted in bits and the
structure around it in bytes. -/
def adaptedStorage (access : Access) (unit : Option AddressableUnit) (size : Option Constant) :
    Checked String := do
  if access.unit == .byte && unit == some .bit then
    Failure.ensure !access.byteOrder.isEmpty
    return bitStorage access.storage access.byteOrder (sizeText size)
  Failure.ensure (some access.unit == unit)
  return access.storage

/-- The type of a view, and what has to be passed to make one. -/
structure View where
  type : String
  parameterTypes : List ValueType := []
  arguments : List Expression := []

def definitionView (p : Program) (access : Access) (size : Option Constant) (t : TypeDefinition) :
    Checked View := do
  let storage ← adaptedStorage access t.unit size
  match t.body with
  | .external _ =>
    let name ← definedName t.name
    let scope ← enclosingNamespace p name
    let own ← Failure.lastOf name.path
    return { type := Fragment.externalView scope own (sizeText size) access.validator storage }
  | .record _ =>
    let parameterTypes ← t.parameters.mapM fun q => valueType p q.type
    let name ← definedName t.name
    let scope ← enclosingNamespace p name
    let own ← Failure.lastOf name.path
    return { type := Fragment.structureView scope own storage, parameterTypes := parameterTypes }
  | .enumeration _ =>
    let name ← qualifiedName p (← definedName t.name)
    return { type := Fragment.enumView name (sizeText size) access.validator storage }
  | .unset => throw .invariant

def typeView (p : Program) (access : Access) (size : Option Constant) : TypeSpec → Checked View
  | .array base _ _ _ _ => do
    match base with
    | none => throw .unset
    | some element =>
      match ← p.fixedSize element with
      | none => throw .invariant
      | some bits =>
        Failure.ensure (bits != 0)
        Failure.ensure (bits % access.unit.bits == 0)
        let units := Text.decimal (bits / access.unit.bits)
        let inner := { access with storage := offsetStorage access.storage units "0" }
        let view ← typeView p inner (some (.int bits)) element
        let parameterTypes ← view.parameterTypes.mapM ValueType.require
        return { view with
          type := Fragment.arrayView view.type access.storage units
            (Text.decimal access.unit.bits) (String.join (parameterTypes.map (", " ++ ·))) }
  | .atomic atom _ _ => do
    match (← p.resolve? atom.reference).object with
    | .definition t =>
      match t.unit with
      | none => throw .illTyped
      | some unit =>
        Failure.ensure (access.unit.bits ≤ unit.bits || !access.byteOrder.isEmpty)
        let view ← definitionView p access size t
        return { view with arguments := atom.arguments }
    | _ => throw .unset
  | .unset _ _ => throw .invariant

/-- Where a field begins, as far as it is always the same: a modulus, zero for one that is
infinite, and a remainder. -/
def alignmentOf (l : Placement) : Checked (String × String) := do
  let start ← Failure.require l.start
  match ← Failure.require start.type with
  | .integer bounds =>
    let shown (n : Option Numeral) : String := (n.map Numeral.text).getD "None"
    let modulus := if bounds.modulus == some .infinity then "0" else shown bounds.modulus
    return (modulus, shown bounds.modularValue)
  | _ => throw .unset

def fieldSize (unit : AddressableUnit) (type : TypeSpec) (l : Placement) :
    Checked (Option Constant) := do
  match type.sizeInBits with
  | some e =>
    match ← e.constantValue? with
    | some size => return some size
    | none => throw .invariant
  | none =>
    return (← Attributes.knownValue l.size).map fun size => .int (size.toInt * unit.bits)

def fieldView (p : Program) (f : Field) (l : Placement) (storage validator : String)
    (unit : AddressableUnit) : Checked View := do
  let type ← Failure.require f.type
  let size ← fieldSize unit type l
  let byteOrder ← match ← attribute? f.attributes "byte_order" with
    | some value => do pure ((← Failure.require value.string?).text.getD "")
    | none => pure ""
  let (alignment, offset) ← alignmentOf l
  typeView p ⟨offsetStorage storage alignment offset, unit, byteOrder, validator⟩ size type

end BinaryLayout.Cpp
