import Std.Data.HashMap
import BinaryLayout.Diagnostic.Report
import BinaryLayout.IR.Find

/-!
# Tables of names

A scope is whatever names can be defined in: the program for its files, a file for its types, a
type for what is inside it, and a field for the name of its own value.  A table holds all scopes
by number and knows which name leads from which scope to which other.

A name that is already taken in a scope is reported.  What is defined inside it goes to a scope
of its own, to which no name leads.
-/

namespace BinaryLayout.Scope

open IR

/-- From where a name can be seen. -/
inductive Visibility where
  /-- From its own scope, and as a member of what is named before it. -/
  | member
  | hidden
  /-- From every scope inside its own. -/
  | searchable
deriving DecidableEq, Inhabited

/-- What is known of a name. -/
structure Entry where
  canonicalName : CanonicalName
  location : Option Location
  visibility : Visibility
  /-- The file that the name stands for, if it was given to one by an import. -/
  importedFile : Option String := none
deriving Inhabited

/-- All scopes by number, and the names in them. -/
structure Table where
  entries : Array Entry
  names : Std.HashMap (Nat × String) Nat

namespace Table

/-- The scope of the program, in which the names of files are defined. -/
def root : Nat := 0

def empty : Table :=
  ⟨#[⟨{}, none, .searchable, none⟩], ∅⟩

def next? (t : Table) (scope : Nat) (name : String) : Option Nat :=
  t.names[(scope, name)]?

def next (t : Table) (scope : Nat) (name : String) : Checked Nat :=
  match t.next? scope name with
  | some n => .ok n
  | none => .error .noEntry

def entry (t : Table) (scope : Nat) : Entry :=
  t.entries.getD scope default

def scopeOf (t : Table) (name : CanonicalName) : Checked Nat := do
  name.path.foldlM (fun scope part => t.next scope part) (← t.next root name.file)

def redefine (t : Table) (scope : Nat) (name : String) (e : Entry) : Table × Nat :=
  let n := t.entries.size
  (⟨t.entries.push e, t.names.insert (scope, name) n⟩, n)

/-- Add a scope to which no name leads. -/
def detached (t : Table) (e : Entry) : Table × Nat :=
  (⟨t.entries.push e, t.names⟩, t.entries.size)

end Table

abbrev TableM := StateT Table ReportM

def duplicateName (file : String) (location : Option Location) (name : String) (first : Entry) :
    MessageGroup :=
  [.error file location ("Duplicate name '" ++ name ++ "'"),
    .note first.canonicalName.file first.location "Original definition"]

def define (scope : Nat) (w : Word) (e : Entry) : TableM Nat := do
  let t ← get
  let name := w.text.getD ""
  match t.next? scope name with
  | some taken =>
    reportGroup
      (duplicateName (t.entry scope).canonicalName.file w.location name (t.entry taken))
    let (t, n) := t.detached e
    set t
    return n
  | none =>
    let (t, n) := t.redefine scope name e
    set t
    return n

/-- The absolute name of something defined inside something else. -/
def nested (outer : CanonicalName) (name : String) : CanonicalName :=
  ⟨outer.file, outer.path ++ [name]⟩

def defineObject (scope : Nat) (visibility : Visibility) (n : Option NameDefinition) :
    TableM (NameDefinition × Nat) := do
  let n ← Failure.require n
  let w ← Failure.require n.name
  let canonicalName := nested ((← get).entry scope).canonicalName (w.text.getD "")
  let number ← define scope w ⟨canonicalName, w.location, visibility, none⟩
  return ({ n with canonicalName := some canonicalName }, number)

mutual

def defineType (scope : Nat) : TypeDefinition → TableM TypeDefinition
  | ⟨body, name, properties, lines, subtypes, unit, parameters, location⟩ => do
    let (name, number) ← defineObject scope .searchable name
    let subtypes ← defineTypes number subtypes
    return ⟨body, some name, properties, lines, subtypes, unit, parameters, location⟩

def defineTypes (scope : Nat) : List TypeDefinition → TableM (List TypeDefinition)
  | [] => return []
  | t :: rest => do
    let first ← defineType scope t
    return first :: (← defineTypes scope rest)

end

def defineValue (scope : Nat) (v : EnumValue) : TableM EnumValue := do
  let (name, _) ← defineObject scope .member v.name
  return { v with name := some name }

def defineField (scope : Nat) (f : Field) : TableM Field := do
  let (name, number) ← defineObject scope .member f.name
  let canonicalName := name.canonicalName.getD {}
  if let some w := f.abbreviation then
    let _ ← define scope w ⟨canonicalName, w.location, .hidden, none⟩
  let place := some Location.unknown.synthetic
  let _ ← define number ⟨some "this", place⟩ ⟨canonicalName, place, .hidden, none⟩
  return { f with name := some name }

def defineParameter (scope : Nat) (p : RuntimeParameter) : TableM RuntimeParameter := do
  let (name, _) ← defineObject scope .member p.name
  return { p with name := some name }

def defineValues (scope : Nat) (t : TypeDefinition) : TableM TypeDefinition :=
  match t.body with
  | .enumeration e => do
    return { t with body := .enumeration { e with values := ← e.values.mapM (defineValue scope) } }
  | _ => return t

def defineFields (scope : Nat) (t : TypeDefinition) : TableM TypeDefinition :=
  match t.body with
  | .record s => do
    return { t with body := .record { s with fields := ← s.fields.mapM (defineField scope) } }
  | _ => return t

def defineParameters (scope : Nat) (t : TypeDefinition) : TableM TypeDefinition := do
  return { t with parameters := ← t.parameters.mapM (defineParameter scope) }

mutual

def inTypeScope (before after : Nat → TypeDefinition → TableM TypeDefinition) (scope : Nat) :
    TypeDefinition → TableM TypeDefinition
  | ⟨body, name, properties, lines, subtypes, unit, parameters, location⟩ => do
    let text ← nameText name
    let number ← (← get).next scope (text.getD "")
    let subtypesBefore := subtypes
    let t ← before number ⟨body, name, properties, lines, [], unit, parameters, location⟩
    let subtypes ← inTypeScopes before after number subtypesBefore
    after number { t with subtypes := subtypes }

def inTypeScopes (before after : Nat → TypeDefinition → TableM TypeDefinition) (scope : Nat) :
    List TypeDefinition → TableM (List TypeDefinition)
  | [] => return []
  | t :: rest => do
    let first ← inTypeScope before after scope t
    return first :: (← inTypeScopes before after scope rest)

end

def inModuleScopes (change : Nat → List TypeDefinition → TableM (List TypeDefinition))
    (p : Program) : TableM Program := do
  let modules ← p.modules.mapM fun m => do
    let scope ← (← get).next Table.root (m.fileName.getD "")
    return { m with types := ← change scope m.types }
  return { p with modules := modules }

def defineModule (m : Module) : TableM Unit := do
  let file ← Failure.require m.fileName
  modify fun t => (t.redefine Table.root file ⟨⟨file, []⟩, none, .searchable, none⟩).1

def leaveType (_ : Nat) (t : TypeDefinition) : TableM TypeDefinition :=
  return t

/-- Define the names of all objects of a program.  If two types have the same name, the names
inside types are left alone. -/
def defineNames (p : Program) : TableM Program := do
  p.modules.forM defineModule
  let p ← inModuleScopes defineTypes p
  if !(← getThe (List MessageGroup)).isEmpty then return p
  let p ← inModuleScopes (inTypeScopes defineValues leaveType) p
  let p ← inModuleScopes (inTypeScopes defineFields leaveType) p
  inModuleScopes (inTypeScopes leaveType defineParameters) p

def defineImport (file : String) (i : Import) : TableM Unit := do
  let w ← Failure.require i.localName
  let name := w.text.getD ""
  if name.isEmpty then return
  let target ← Failure.require i.fileName
  let scope ← (← get).next Table.root file
  let _ ← define scope w
    ⟨nested ⟨file, []⟩ name, w.location, .searchable, some (target.text.getD "")⟩

def defineImports (p : Program) : TableM Unit :=
  p.modules.forM fun m => m.imports.forM (defineImport (m.fileName.getD ""))

end BinaryLayout.Scope
