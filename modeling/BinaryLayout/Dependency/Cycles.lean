import BinaryLayout.Dependency.Graph
import BinaryLayout.Diagnostic.Report
import BinaryLayout.IR.Find
import BinaryLayout.IR.Walk

/-!
# Dependencies between objects

A field depends on what its place, type, condition and value refer to.  No object may depend on
itself, and no module may import itself, through however many others.
-/

namespace BinaryLayout.Dependency

open IR

def nodeOf (name : CanonicalName) : NodeName :=
  name.file :: name.path

def nodeOfName (n : Option NameDefinition) : Checked NodeName := do
  return nodeOf (← Failure.require (← Failure.require n).canonicalName)

def dependentName? : Node → Option (Option NameDefinition)
  | .field f => some f.name
  | .enumValue v => some v.name
  | .parameter p => some p.name
  | _ => none

def addObjects (p : Program) (skip : List Kind) (g : Graph) : Checked Graph := do
  let add (g : Graph) (kind : Kind) : Checked Graph :=
    (p.visits [kind] skip).foldlM
      (fun g v => do
        match dependentName? v.node with
        | some name => return g.addNode (← nodeOfName name)
        | none => return g)
      g
  add (← add (← add g .field) .enumValue) .runtimeParameter

def dependentOf (v : Visit) : Checked NodeName :=
  match v.nearest dependentName? with
  | some name => nodeOfName name
  | none => .error .invariant

def addFieldReferences (p : Program) (g : Graph) : Checked Graph :=
  (p.partsOf Node.fieldReference? [.fieldReference] [.property]).foldlM
    (fun g (v, r) => do
      let source ← dependentOf v
      let head ← Failure.element r.path 0
      return g.addEdge source (nodeOf (← Failure.require head.canonicalName)))
    g

def fieldDependencies (p : Program) : Checked Graph := do
  addFieldReferences p (← addObjects p [.property] {})

def contextualWords : List String :=
  ["$is_statically_sized", "$static_size_in_bits", "$next"]

def misplacedWord (file : String) (r : Reference) (word : String) : Message :=
  .error file r.location ("Keyword `" ++ word ++ "` may not be used in this context.")

def addReferences (p : Program) (g : Graph) : ReportM Graph :=
  (p.partsOf Node.reference? [.reference] [.atomicType, .property, .fieldReference]).foldlM
    (fun g (v, r) => do
      let source ← dependentOf v
      let name ← Failure.require r.canonicalName
      let word ← Failure.element name.path 0
      if contextualWords.contains word then
        report (misplacedWord v.file r word)
        return g
      else return g.addEdge source (nodeOf name))
    g

def dependencies (p : Program) : ReportM Graph := do
  let g ← addObjects p [.property] {}
  let g ← addReferences p g
  addFieldReferences p g

/-- Which files each file imports.  That the prelude is used in itself does not count. -/
def importGraph (p : Program) : Checked Graph :=
  p.modules.foldlM
    (fun g m => do
      let file := m.fileName.getD ""
      m.imports.foldlM
        (fun g i => do
          let target ← Failure.require i.fileName
          let target := target.text.getD ""
          return if target.isEmpty && file.isEmpty then g else g.addEdge [file] [target])
        (g.addNode [file]))
    {}

/-- What is said of an object on a cycle: its place and its name. -/
def cycleMember (p : Program) (n : NodeName) : Checked (String × Option Location × String) := do
  match ← p.findPath n with
  | none => throw .invariant
  | some found =>
    let file := n.headD ""
    match found.object with
    | .moduleFile m => return (file, m.location, m.fileName.getD "")
    | .definition t => return (file, t.location, (← nameText t.name).getD "")
    | .field f => return (file, f.location, (← nameText f.name).getD "")
    | .enumValue v => return (file, v.location, (← nameText v.name).getD "")
    | .parameter r => return (file, r.location, (← nameText r.name).getD "")

def cycleGroup (p : Program) (title : String) (cycle : List NodeName) : Checked MessageGroup := do
  let members ← cycle.mapM (cycleMember p)
  match members with
  | [] => return []
  | (file, location, name) :: rest =>
    return .error file location (title ++ "\n" ++ name) ::
      rest.map fun (file, location, name) => .note file location name

/-- Groups about cycles are ordered by file, text and place of their first messages. -/
def groupLE (a b : MessageGroup) : Bool :=
  match a, b with
  | m :: _, n :: _ =>
    let file (m : Message) : String := match m.origin with
      | .file name => name
      | .reference _ _ => ""
    (((compare (file m) (file n)).then (compare m.text n.text)).then
      (m.location.order n.location)).isLE
  | [], _ => true
  | _, [] => false

def cycleGroups (p : Program) (title : String) (g : Graph) : Checked (List MessageGroup) := do
  let groups ← (← g.cycles).mapM (cycleGroup p title)
  return groups.mergeSort groupLE

def objectCycles (p : Program) : Checked (List MessageGroup) := do
  let (g, misplaced) ← (dependencies p).run []
  if !misplaced.isEmpty then return misplaced
  cycleGroups p "Dependency cycle" g

def findCycles (p : Program) : Checked (Program × List MessageGroup) := do
  let imports ← cycleGroups p "Import dependency cycle" (← importGraph p)
  return (p, imports ++ (← objectCycles p))

end BinaryLayout.Dependency
