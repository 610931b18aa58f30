import BinaryLayout.Diagnostic.Report
import BinaryLayout.IR.Synthetic

/-!
# The end of the field before

In the start of a physical field `$next` stands for the end of the physical field before it, and
is replaced by the sum of that field's start and size.  It cannot be used in a size, nor in the
first physical field of a structure.
-/

namespace BinaryLayout.Expansion

open IR

def nextName : String := "$next"

def placeholder (name : String) (first last : Nat) : Expression :=
  let location := some (Location.onLine 1 first last)
  .fieldReference ⟨[{ sourceName := [⟨some name, location⟩], location := location }], location⟩
    { location := location }

/-- The end of a field: the sum of its start and its size. -/
def endOf (p : Placement) (note : Annotation) : Expression :=
  .function (some .addition)
    [(placeholder "x" 1 2).filledFrom p.start, (placeholder "y" 5 6).filledFrom p.size]
    (some ⟨some "+", some (.onLine 1 3 4)⟩) (some (.onLine 1 1 6)) note

def replaceReference (last : Option Placement) (file : String) (r : Reference)
    (note : Annotation) : ReportM Expression := do
  let name ← Failure.element ((r.canonicalName.getD {}).path) 0
  if name != nextName then return .builtinReference r note
  match last with
  | some p => return endOf p note
  | none =>
    report (.error file note.location
      "`$next` may not be used in the first physical field of a structure; perhaps you meant `0`?")
    return .builtinReference r note

mutual

def replaceNext (last : Option Placement) (file : String) : Expression → ReportM Expression
  | .builtinReference r note => replaceReference last file r note
  | .function operator args name location note => do
    return .function operator (← replaceNextIn last file args) name location note
  | e => return e

def replaceNextIn (last : Option Placement) (file : String) :
    List Expression → ReportM (List Expression)
  | [] => return []
  | e :: rest => do
    let first ← replaceNext last file e
    return first :: (← replaceNextIn last file rest)

end

mutual

def rejectNext (file : String) : Expression → ReportM Unit
  | .builtinReference r note => do
    let name ← Failure.element (← Failure.require r.canonicalName).path 0
    if name == nextName then
      report (.error file note.location
        "`$next` may only be used in the start expression of a physical field.")
  | .function _ args _ _ _ => rejectNextIn file args
  | _ => return

def rejectNextIn (file : String) : List Expression → ReportM Unit
  | [] => return
  | e :: rest => do
    rejectNext file e
    rejectNextIn file rest

end

def searched (e : Option Expression) : Checked Expression :=
  match e with
  | some e => .ok e
  | none => .error .noEntry

/-- Replace the end of the field before in the fields of a structure.  Nothing more is done after
the first field with an error. -/
def replaceInFields (file : String) : Option Placement → List Field → ReportM (List Field)
  | _, [] => return []
  | last, f :: rest =>
    match f.placement with
    | none => do return f :: (← replaceInFields file last rest)
    | some p => do
      let before ← get
      rejectNext file (← searched p.size)
      if (← get).length > before.length then return f :: rest
      let start ← replaceNext last file (← searched p.start)
      let placed : Placement := { p with start := some start }
      let changed := { f with placement := some placed }
      if (← get).length > before.length then return changed :: rest
      return changed :: (← replaceInFields file (some placed) rest)

def replaceInBody (file : String) : TypeBody → ReportM TypeBody
  | .record s => do return .record { s with fields := ← replaceInFields file none s.fields }
  | body => return body

mutual

def replaceInType (file : String) : TypeDefinition → ReportM TypeDefinition
  | ⟨body, name, properties, lines, subtypes, unit, parameters, location⟩ => do
    let body ← replaceInBody file body
    let subtypes ← replaceInTypes file subtypes
    return ⟨body, name, properties, lines, subtypes, unit, parameters, location⟩

def replaceInTypes (file : String) : List TypeDefinition → ReportM (List TypeDefinition)
  | [] => return []
  | t :: rest => do
    let first ← replaceInType file t
    return first :: (← replaceInTypes file rest)

end

def replaceInProgram (p : Program) : ReportM Program := do
  let modules ← p.modules.mapM fun m => do
    return { m with types := ← replaceInTypes (m.fileName.getD "") m.types }
  return { p with modules := modules }

end BinaryLayout.Expansion
