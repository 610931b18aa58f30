import BinaryLayout.Cpp.Attributes
import BinaryLayout.Cpp.Structure

/-!
# C++ headers

The header for a module: views of all of its types, in the namespace of the module.
-/

namespace BinaryLayout.Cpp

open IR

def includedFiles (config : Config) (i : Import) : Checked (List String) := do
  let file := (← Failure.require i.fileName).text.getD ""
  if !file.isEmpty then return [file ++ ".h"]
  return "runtime/cpp/emboss_prelude.h" ::
    (if config.includeEnumTraits then
      ["runtime/cpp/emboss_enum_view.h", "runtime/cpp/emboss_text_util.h"] else [])

def includes (config : Config) (m : Module) : Checked String := do
  let files := (← m.imports.mapM (includedFiles config)).flatten
  return String.join (files.map fun file => Fragment.includeFile (escapeFileName file))

def headerText (config : Config) (p : Program) : Checked String := do
  let m ← Failure.element p.modules 0
  let codes ← typeCodes p config m.types
  let body := Fragment.body (String.join (codes.map (·.declaration)))
    (String.join (codes.map (·.definition))) (String.join (codes.map (·.methods)))
  let body := inNamespaces (← moduleNamespace m) body
  let included ← includes config m
  match m.fileName with
  | none => throw .illTyped
  | some file => return Fragment.outline (headerGuard file) included body

def header (config : Config) (p : Program) : Checked (Reported String) := do
  match ← prepare p with
  | .error groups => return .error groups
  | .ok p => return .ok (← headerText config p)

end BinaryLayout.Cpp
