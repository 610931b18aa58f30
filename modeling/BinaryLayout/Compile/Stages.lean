import BinaryLayout.Attributes.Verify
import BinaryLayout.Compile.Gather
import BinaryLayout.Constraint.Check
import BinaryLayout.Dependency.Order
import BinaryLayout.Expansion.Fields
import BinaryLayout.Scope.Members
import BinaryLayout.Typing.Check
import BinaryLayout.Writing.Method

/-!
# The stages of the compiler

A program that has just been gathered goes through a fixed sequence of stages.  Each completes or
checks it, and may report errors.  Errors about what the user wrote end the sequence; errors that
have to do with what the compiler itself made are kept until the end, since there is nearly always
one about what the user wrote that says the same in a better place.
-/

namespace BinaryLayout.Compile

open IR

structure Stage where
  name : String
  run : Program → Checked (Program × List MessageGroup)

def stages : List Stage :=
  [⟨"desugar", Expansion.expand⟩,
    ⟨"resolve_symbols", Scope.resolveSymbols⟩,
    ⟨"find_dependency_cycles", Dependency.findCycles⟩,
    ⟨"set_dependency_order", Dependency.setOrder⟩,
    ⟨"resolve_field_references", Scope.resolveFieldReferences⟩,
    ⟨"annotate_types", Typing.annotateTypes⟩,
    ⟨"check_types", Typing.checkTypes⟩,
    ⟨"check_early_constraints", Constraint.checkEarly⟩,
    ⟨"compute_constants", Bounds.computeConstants⟩,
    ⟨"normalize_and_verify", Attributes.normalize⟩,
    ⟨"check_constraints", Constraint.check⟩,
    ⟨"set_write_methods", Writing.setWriteMethods⟩]

/-- Run stages one after another, up to one that may be named.  Errors that were kept are reported
only if no stage is left. -/
def runStages (stopBefore : Option String) : List Stage → List MessageGroup → Program →
    Checked (Reported Program)
  | [], kept, p => return if kept.isEmpty then .ok p else .error kept
  | stage :: rest, kept, p => do
    if stopBefore == some stage.name then return .ok p
    let (p, groups) ← stage.run p
    let (userGroups, syntheticGroups) := splitGroups groups
    if userGroups.isEmpty then runStages stopBefore rest (kept ++ syntheticGroups) p
    else return .error userGroups

def process (stopBefore : Option String) (p : Program) : Checked (Reported Program) := do
  match stopBefore with
  | some name => Failure.ensure (stages.any (·.name == name))
  | none => pure ()
  runStages stopBefore stages [] p

/-- What a compilation comes to, with the files that were read and what is remembered of it. -/
structure Compiled where
  result : Reported Program
  files : List GatheredFile
  session : Session

/-- Gather a program and complete it. -/
def compile (session : Session) (limit : Nat) (sources : String → FileText) (main : String)
    (stopBefore : Option String) : Checked Compiled := do
  let (g, groups) ← gather session limit sources main
  let result ← if groups.isEmpty then process stopBefore g.program else pure (.error groups)
  return ⟨result, g.files, g.session⟩

end BinaryLayout.Compile
