import BinaryLayout.Attributes.Rules

/-!
# The attributes of the language

The attributes without a qualifier: what they may be set to, and where.
-/

namespace BinaryLayout.Attributes

open IR

def isBackEndName : List Char → Bool
  | [] => false
  | c :: rest =>
    ('a' ≤ c && c ≤ 'z') &&
      rest.all fun c => ('a' ≤ c && c ≤ 'z') || ('0' ≤ c && c ≤ '9') || c == '_'

def commaPieces (s : String) : List (List Char) :=
  (s.toList.splitOn ',').map Text.trim

/-- Whether a text is a list of names of back ends.  A comma may follow the last one, and the list
may be blank. -/
def isBackEndList (s : String) : Bool :=
  let pieces := commaPieces s
  match pieces.getLast? with
  | some [] => pieces.dropLast.all isBackEndName
  | _ => pieces.all isBackEndName

def backEndList : ValueCheck := fun file a => do
  let value ← Failure.require a.value
  match (← Failure.require value.string?).text with
  | none => throw .illTyped
  | some text =>
    if isBackEndList text then return []
    return [[.error file value.location
      ("Attribute '" ++ (← requiredText a.name).getD "None" ++
        "' must be a comma-delimited list of back end " ++
        "specifiers (like \"cpp, proto\")), not \"" ++ text ++ "\".")]]

def languageRules : Rules where
  checks := [
    ("addressable_unit_size", constantInteger),
    ("byte_order", oneOf ["BigEndian", "LittleEndian", "Null"]),
    ("maximum_bits", constantInteger),
    ("fixed_size_in_bits", constantInteger),
    ("is_integer", constantBoolean),
    ("is_signed", constantBoolean),
    ("requires", boolean),
    ("static_requirements", boolean),
    ("text_output", oneOf ["Emit", "Skip"]),
    ("expected_back_ends", backEndList)]
  onModule := [("byte_order", true), ("expected_back_ends", false)]
  onBits := [("fixed_size_in_bits", false), ("requires", false)]
  onStruct := [("fixed_size_in_bits", false), ("byte_order", true), ("requires", false)]
  onEnum := [("maximum_bits", false), ("is_signed", false)]
  onExternal := [("addressable_unit_size", false), ("fixed_size_in_bits", false),
    ("is_integer", false), ("static_requirements", false)]
  onPhysicalField := [("byte_order", false), ("requires", false), ("text_output", false)]
  onVirtualField := [("requires", false), ("text_output", false)]

end BinaryLayout.Attributes
