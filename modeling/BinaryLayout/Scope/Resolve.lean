import BinaryLayout.IR.Walk
import BinaryLayout.Scope.Table

/-!
# Resolving names

The first name of a reference is looked for in the scopes around it, from the inside out; every
other name is a member of what the names before it lead to.  In its own scope a reference sees
all names, further out only those of types and files.  A name that can be seen in two scopes is
ambiguous.
-/

namespace BinaryLayout.Scope

open IR

/-- What is around a reference. -/
structure Surroundings where
  file : String
  /-- The innermost scope, unless the reference stands outside all types. -/
  current : Option CanonicalName
  /-- The scopes in which names are looked for, the innermost first. -/
  visible : List CanonicalName

def openFiles (m : Module) : List String :=
  (m.imports.filter fun i => ((i.localName.bind (·.text)).getD "").isEmpty).map fun i =>
    (i.fileName.bind (·.text)).getD ""

def surroundings (v : Visit) : Surroundings :=
  let nodes := v.node :: v.ancestors
  let absolute (n : Option NameDefinition) : Option CanonicalName := n.bind (·.canonicalName)
  let types := nodes.filterMap fun n => n.typeDefinition?.bind fun t => absolute t.name
  let files := match v.module? with
    | some m => (m.fileName.getD "") :: openFiles m
    | none => []
  let outer := types ++ files.map fun file => ⟨file, []⟩
  match nodes.findSome? Node.property?, v.field?.bind fun f => absolute f.name with
  | some _, some field => ⟨v.file, some field, field :: outer⟩
  | _, _ => ⟨v.file, types.head?, outer⟩

def missingName (file : String) (location : Option Location) (name : String) : MessageGroup :=
  [.error file location ("No candidate for '" ++ name ++ "'")]

/-- Whether one place stands before another: by file, then by location. -/
def placeLE (a b : Entry) : Bool :=
  ((compare a.canonicalName.file b.canonicalName.file).then
    ((a.location.getD .unknown).order (b.location.getD .unknown))).isLE

def ambiguousName (file : String) (location : Option Location) (name : String) (a b : Entry) :
    MessageGroup :=
  .error file location ("Ambiguous name '" ++ name ++ "'") ::
    ([a, b].mergeSort placeLE).map fun e =>
      .note e.canonicalName.file e.location "Possible resolution"

def searchScopes (table : Table) (s : Surroundings) (current : CanonicalName) (r : Reference)
    (name : String) : Option Nat → List CanonicalName → ReportM (Option Nat)
  | found, [] => return found
  | found, visible :: rest => do
    let scope ← table.scopeOf visible
    match table.next? scope name with
    | none => searchScopes table s current r name found rest
    | some n =>
      if visible ≠ current && (table.entry n).visibility ≠ .searchable then
        searchScopes table s current r name found rest
      else
        match found with
        | some first =>
          let earlier := ((table.next? first name).map table.entry).getD default
          reportGroup (ambiguousName s.file r.location name earlier (table.entry n))
          searchScopes table s current r name found rest
        | none =>
          if r.isLocalName.getD false then return some scope
          else searchScopes table s current r name (some scope) rest

def followNames (table : Table) (file : String) : Nat → List Word → ReportM (Option Nat)
  | scope, [] => return some scope
  | scope, w :: rest => do
    match table.next? scope (w.text.getD "") with
    | none =>
      reportGroup (missingName file w.location (w.text.getD ""))
      return none
    | some n =>
      match (table.entry n).importedFile with
      | none => followNames table file n rest
      | some imported => followNames table file (← table.next Table.root imported) rest

/-- The absolute name that a reference leads to.  Once an error has been reported nothing more is
resolved. -/
def resolveReference (table : Table) (s : Surroundings) (r : Reference) :
    ReportM (Option CanonicalName) := do
  match s.current with
  | none => throw .invariant
  | some current =>
    if r.canonicalName.isSome then return r.canonicalName
    let first ← Failure.element r.sourceName 0
    let name := first.text.getD ""
    let found ← searchScopes table s current r name none s.visible
    match found with
    | none =>
      reportGroup (missingName s.file first.location name)
      return none
    | some scope =>
      if !(← get).isEmpty then return none
      let target ← followNames table s.file scope r.sourceName
      return target.map fun n => (table.entry n).canonicalName

abbrev ResolveM := StateT Program ReportM

def resolveAt (table : Table) (s : Surroundings) (address : Address) (r : Reference) :
    ResolveM Unit := do
  match ← resolveReference table s r with
  | none => return
  | some name =>
    modify fun p => p.put address (.reference { r with canonicalName := some name })

def resolveReferences (table : Table) : ResolveM Unit := do
  for (v, r) in (← get).partsOf Node.reference? [.reference] [.fieldReference] do
    resolveAt table (surroundings v) v.address r
  for (v, r) in (← get).partsOf Node.fieldReference? [.fieldReference] do
    let s := surroundings v
    if s.current.isNone then throw Failure.invariant
    let head ← Failure.element r.path 0
    resolveAt table s (v.address ++ [⟨"path", 0⟩]) head

def resolveSymbols (p : Program) : Checked (Program × List MessageGroup) := do
  let ((p, table), groups) ← ((defineNames p).run Table.empty).run []
  if !groups.isEmpty then return (p, groups)
  let (((), table), groups) ← ((defineImports p).run table).run []
  if !groups.isEmpty then return (p, groups)
  let (((), p), groups) ← ((resolveReferences table).run p).run []
  return (p, groups)

end BinaryLayout.Scope
