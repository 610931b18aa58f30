import BinaryLayout.Attributes.Complete
import BinaryLayout.Cpp.EnumCase
import BinaryLayout.Cpp.Namespace

/-!
# Attributes for C++

A module can say which namespace its code goes to, and an enumeration in which styles the names
of its values are written.
-/

namespace BinaryLayout.Cpp

open IR

def rules : Attributes.Rules where
  backEnd := some "cpp"
  checks := [("namespace", Attributes.string), ("enum_case", Attributes.string)]
  onModule := [("namespace", false), ("enum_case", true)]
  onStruct := [("enum_case", true)]
  onBits := [("enum_case", true)]
  onEnum := [("enum_case", true)]
  onEnumValue := [("enum_case", false)]

def namespaceErrors (s : String) : List String :=
  if isNamespace s then
    ((components s).filter reservedWords.contains).map fun word =>
      "Reserved word \"" ++ word ++ "\" is not allowed as a namespace component."
  else if s.toList.all Text.isBlank then ["Empty namespace value is not allowed."]
  else if Text.stripped s = "::" then ["Global namespace is not allowed."]
  else
    ["Invalid namespace, must be a valid C++ namespace, such as \"abc\", " ++
      "\"abc::def\", or \"::abc::def::ghi\" (ISO/IEC 14882:2017 " ++
      "enclosing-namespace-specifier)."]

def checkNamespace (file : String) (a : Attribute) : ReportM Unit := do
  if (← requiredText a.name) != some "namespace" then return
  let value := (a.value.bind (·.string?)).getD {}
  for text in namespaceErrors (value.text.getD "") do report (.error file value.location text)

def spanLocation (l : Location) (span : Span) : Location :=
  { l with
    start := { l.start with column := l.start.column + span.1 }
    stop := { l.start with column := l.start.column + span.2 } }

/-- What is wrong with a style, given those before it. -/
def enumCaseError? (seen : List String) (case : String) : Option String :=
  if case.isEmpty then some "Empty enum case (or excess comma)."
  else if seen.contains case then some ("Duplicate enum case \"" ++ case ++ "\".")
  else if supportedCases.any (·.text == case) then none
  else
    some ("Unsupported enum case \"" ++ case ++ "\", supported cases are: " ++
      String.intercalate ", " (supportedCases.map NameStyle.text) ++ ".")

def checkCases (file text : String) (location : Option Location) : List String → List Span →
    ReportM Unit
  | _, [] => return
  | seen, span :: rest => do
    let place := spanLocation (← Failure.require location) span
    let case := span.of text
    match enumCaseError? seen case with
    | some message => report (.error file (some place) message)
    | none => pure ()
    checkCases file text location (case :: seen) rest

def checkEnumCase (file : String) (a : Attribute) : ReportM Unit := do
  if (← requiredText a.name) != some "enum_case" then return
  let value ← Failure.require (← Failure.require a.value).string?
  match value.text with
  | none => throw .illTyped
  | some text => checkCases file text value.location [] (enumCaseSpans text)

def checkValues (p : Program) : Checked (List MessageGroup) :=
  ReportM.groups do
    let attributes := p.partsOf Node.property? [.property]
    for (v, a) in attributes do checkNamespace v.file a
    for (v, a) in attributes do checkEnumCase v.file a

/-- Give every value of an enumeration the styles that are the default where it stands. -/
def inheritCases (p : Program) : Checked Program :=
  (p.partsOf Node.enumValue? [.enumValue]).foldlM
    (fun q (v, e) => do
      let default ← Attributes.defaultFor "enum_case" v
      match ← attribute? e.attributes "enum_case", default with
      | none, some a =>
        return q.put v.address (.enumValue { e with attributes := e.attributes ++ [a] })
      | _, _ => return q)
    p

def prepare (p : Program) : Checked (Reported Program) := do
  let groups ← rules.check p
  if !groups.isEmpty then return .error groups
  let groups ← checkValues p
  if !groups.isEmpty then return .error groups
  return .ok (← inheritCases p)

end BinaryLayout.Cpp
