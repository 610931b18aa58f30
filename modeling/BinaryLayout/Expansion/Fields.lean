import BinaryLayout.Expansion.Next

/-!
# Implied fields

Some fields need not be written.  The fields of an unnamed part can be used as if they were
fields of the structure around it, and every structure has a field for its size and two for the
bounds of its size.
-/

namespace BinaryLayout.Expansion

open IR

def skipTextOutput : Attribute :=
  Attribute.synthetic
    { name := some { text := some "text_output" }
      value := some (.string { text := some "Skip" } none) }

def onFirstLine (first last : Nat) : Option Location :=
  some (.onLine 1 first last)

def callOf (operator : Operator) (name : String) (argument : Expression)
    (first nameEnd last : Nat) : Expression :=
  .function (some operator) [argument] (some ⟨some name, onFirstLine first nameEnd⟩)
    (onFirstLine first last) { location := onFirstLine first last }

def presenceOfBoth (part inner : List Reference) : Expression :=
  let pathAt (path : List Reference) (first last : Nat) : Expression :=
    .fieldReference ⟨path, onFirstLine first last⟩ { location := onFirstLine first last }
  .function (some .and)
    [callOf .presence "$present" (pathAt part 10 11) 1 9 12,
      callOf .presence "$present" (pathAt inner 25 28) 16 24 29]
    (some ⟨some "&&", onFirstLine 13 15⟩) (onFirstLine 1 29) { location := onFirstLine 1 29 }

def aliasOf (part : Word) (f : Field) : Checked Field := do
  let name ← Failure.require f.name
  let word ← Failure.require name.name
  let outer : Reference := { sourceName := [part] }
  let path : List Reference := [outer, { sourceName := [word] }]
  return {
    readTransform := some (Expression.fieldReference ⟨path, none⟩ {}).synthetic
    existenceCondition := some (presenceOfBoth [outer] path).synthetic
    name := some name
    abbreviation := f.abbreviation }

def withSyntheticNames (f : Field) : Field :=
  { f with
    name := f.name.map NameDefinition.synthetic
    abbreviation := f.abbreviation.map Word.synthetic }

def typeIndexOf (f : Field) : Nat → List TypeDefinition → Checked Nat
  | _, [] => .error .invariant
  | index, t :: rest => do
    let name := (← Failure.require (← Failure.require t.name).name).text
    let atom ← Failure.require ((← Failure.require f.type).atom?)
    let reference ← Failure.require atom.reference
    if name == (← Failure.lastOf reference.sourceName).text then return index
    else typeIndexOf f (index + 1) rest

/-- A field followed by those that stand for the fields of an unnamed part, and the types inside
the structure with the names of those fields marked. -/
def expandField (subtypes : List TypeDefinition) (f : Field) :
    Checked (List Field × List TypeDefinition) := do
  let name ← Failure.require f.name
  if !name.isAnonymous.getD false then return ([f], subtypes)
  let f := { f with attributes := f.attributes ++ [skipTextOutput] }
  let index ← typeIndexOf f 0 subtypes
  let t ← Failure.element subtypes index
  match t.body with
  | .record s =>
    let aliases ← s.fields.mapM fun inner => do aliasOf (← Failure.require name.name) inner
    let marked : TypeDefinition :=
      { t with body := .record { s with fields := s.fields.map withSyntheticNames } }
    return (f :: aliases, subtypes.set index marked)
  | _ => throw .unset

def expandFields (subtypes : List TypeDefinition) :
    List Field → Checked (List Field × List TypeDefinition)
  | [] => return ([], subtypes)
  | f :: rest => do
    let (first, subtypes) ← expandField subtypes f
    let (others, subtypes) ← expandFields subtypes rest
    return (first ++ others, subtypes)

def unitName : Option AddressableUnit → Checked String
  | some .bit => .ok "bits"
  | some .byte => .ok "bytes"
  | _ => .error .noEntry

def sizeClause (f : Field) (p : Placement) : Expression :=
  let sum : Expression :=
    .function (some .addition)
      [(placeholder "start" 23 28).filledFrom p.start, (placeholder "size" 31 35).filledFrom p.size]
      (some ⟨some "+", onFirstLine 29 30⟩) (onFirstLine 23 35) { location := onFirstLine 23 35 }
  let zero : Expression :=
    .constant ⟨some (.int 0), onFirstLine 38 39⟩ { location := onFirstLine 38 39 }
  .function (some .choice)
    [(placeholder "existence_condition" 1 20).filledFrom f.existenceCondition, sum, zero]
    (some ⟨some "?:", onFirstLine 21 37⟩) (onFirstLine 1 39) { location := onFirstLine 1 39 }

/-- The size of a structure: the largest end of a field. -/
def totalSize (fields : List Field) : Expression :=
  let zero : Expression :=
    .constant ⟨some (.int 0), onFirstLine 6 7⟩ { location := onFirstLine 6 7 }
  let clauses := fields.filterMap fun f => f.placement.map (sizeClause f)
  .function (some .maximum) (zero :: clauses) (some ⟨some "$max", onFirstLine 1 5⟩)
    (onFirstLine 1 8) { location := onFirstLine 1 8 }

def impliedField (name : String) (value condition : Expression) : Field :=
  { readTransform := some value.synthetic
    name := some { name := some { text := some name } }
    existenceCondition := some condition
    attributes := [skipTextOutput] }

def sizeField (unit : String) (fields : List Field) : Field :=
  impliedField ("$size_in_" ++ unit) (totalSize fields) (.booleanConstant { value := some true } {})

def boundField (operator : Operator) (name function unit : String) : Field :=
  let size := "$size_in_" ++ unit
  let stop := 14 + size.length
  let condition : Expression :=
    .booleanConstant ⟨some true, onFirstLine 1 5⟩ { location := onFirstLine 1 5 }
  impliedField (name ++ unit)
    (callOf operator function (placeholder size 14 stop) 1 13 (stop + 1)) condition

def expandStructure (unit : Option AddressableUnit) (subtypes : List TypeDefinition)
    (s : Structure) : Checked (Structure × List TypeDefinition) := do
  let (fields, subtypes) ← expandFields subtypes s.fields
  let unit ← unitName unit
  let implied :=
    [sizeField unit fields, boundField .upperBound "$max_size_in_" "$upper_bound" unit,
      boundField .lowerBound "$min_size_in_" "$lower_bound" unit]
  return ({ s with fields := fields ++ implied }, subtypes)

def expandBody (unit : Option AddressableUnit) (subtypes : List TypeDefinition) :
    TypeBody → Checked (TypeBody × List TypeDefinition)
  | .record s => do
    let (s, subtypes) ← expandStructure unit subtypes s
    return (.record s, subtypes)
  | body => return (body, subtypes)

def nesting : List TypeDefinition → Nat
  | [] => 0
  | ⟨_, _, _, _, subtypes, _, _, _⟩ :: rest => 1 + nesting subtypes + nesting rest

/-- Add the implied fields to types and those inside them.  The depth bounds how often types lie
inside each other. -/
def expandTypes : Nat → List TypeDefinition → Checked (List TypeDefinition)
  | 0, types => return types
  | depth + 1, types =>
    types.mapM fun t => do
      let (body, subtypes) ← expandBody t.unit t.subtypes t.body
      return { t with body := body, subtypes := ← expandTypes depth subtypes }

/-- Replace what stands for the end of the field before, and add all implied fields. -/
def expand (p : Program) : Checked (Program × List MessageGroup) := do
  let (p, groups) ← (replaceInProgram p).run []
  if !groups.isEmpty then return (p, groups)
  let modules ← p.modules.mapM fun m => do
    return { m with types := ← expandTypes (nesting m.types) m.types }
  return ({ p with modules := modules }, [])

end BinaryLayout.Expansion
