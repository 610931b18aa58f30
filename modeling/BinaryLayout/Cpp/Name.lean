import BinaryLayout.Cpp.Namespace
import BinaryLayout.IR.Find
import BinaryLayout.Text.Case

/-!
# Names in generated code

How the names of a definition, of its fields and of its file appear in C++.
-/

namespace BinaryLayout.Cpp

open IR

/-- The methods for fields that the language itself adds to a structure. -/
def builtinFieldNames : List (String × String) :=
  [("$size_in_bits", "IntrinsicSizeInBits"), ("$size_in_bytes", "IntrinsicSizeInBytes"),
    ("$max_size_in_bits", "MaxSizeInBits"), ("$min_size_in_bits", "MinSizeInBits"),
    ("$max_size_in_bytes", "MaxSizeInBytes"), ("$min_size_in_bytes", "MinSizeInBytes")]

def isBuiltinName (name : String) : Bool :=
  name.toList.head? == some '$'

def fieldName (name : String) : Checked String :=
  if isBuiltinName name then Failure.entry (builtinFieldNames.lookup name) else .ok name

def squeezeUnderscores : List Char → List Char
  | [] => []
  | [c] => [c]
  | c :: d :: rest =>
    if c = '_' ∧ d = '_' then squeezeUnderscores (d :: rest)
    else c :: squeezeUnderscores (d :: rest)

def headerGuard (path : String) : String :=
  let name := (Text.upper (path ++ ".h")).toList.map fun c => if isNameChar c then c else '_'
  String.ofList (squeezeUnderscores (name ++ ['_']))

/-- A file name in an include line: a backslash and a null character stand for every quote and
every backslash. -/
def escapeFileName (s : String) : String :=
  String.ofList (s.toList.flatMap fun c =>
    if c = '\'' ∨ c = '"' ∨ c = '\\' then ['\\', '\x00'] else [c])

def defaultNamespace : String :=
  "emboss_generated_code"

def moduleNamespace (m : Module) : Checked (List String) := do
  match ← attribute? m.attributes "namespace" with
  | none => return components defaultNamespace
  | some value =>
    let text := (← Failure.require value.string?).text.getD ""
    return components (if text.isEmpty then defaultNamespace else text)

def qualifiedPath (names : List String) : String :=
  String.join (names.map ("::" ++ ·))

def enclosingNamespace (p : Program) (name : CanonicalName) : Checked String := do
  match ← p.findPath [name.file] with
  | some ⟨_, .moduleFile m⟩ =>
    return qualifiedPath (← moduleNamespace m) ++ qualifiedPath name.path.dropLast
  | _ => throw .invariant

def qualifiedName (p : Program) (name : CanonicalName) : Checked String := do
  let scope ← enclosingNamespace p name
  return scope ++ "::" ++ (← Failure.lastOf name.path)

def definedName (n : Option NameDefinition) : Checked CanonicalName := do
  Failure.require (← Failure.require n).canonicalName

def ownName (n : Option NameDefinition) : Checked String := do
  Failure.lastOf (← definedName n).path

/-- The word that names something, or what stands in its place. -/
def shownName (n : Option NameDefinition) : Checked String := do
  return (← nameText n).getD "None"

end BinaryLayout.Cpp
