import BinaryLayout.Text.Lines

/-!
# Enumerations

The code for an enumeration and for the names of its values.
-/

namespace BinaryLayout.Cpp.Fragment

def enumDeclaration (enum type : String) : String :=
  Text.joinLines [
    s!"enum class {enum} : {type};",
    "",
    ""]

def enumDefinition (enum type values : String) : String :=
  Text.joinLines [
    s!"enum class {enum} : {type} \x7b",
    values,
    "\x7d;",
    ""]

/-- The functions that turn names into values and back. -/
def enumTraits (enum fromName toName known : String) : String :=
  Text.joinLines [
    "template <class Enum>",
    "class EnumTraits;",
    "",
    "template <>",
    s!"class EnumTraits<{enum}> final \x7b",
    " public:",
    "  static bool TryToGetEnumFromName(const char *emboss_reserved_local_name,",
    s!"                                   {enum} *emboss_reserved_local_result) \x7b",
    "    if (emboss_reserved_local_name == nullptr) return false;",
    fromName,
    "    return false;",
    "  \x7d",
    "",
    "  static const char *TryToGetNameFromEnum(",
    s!"      {enum} emboss_reserved_local_value) \x7b",
    "    switch (emboss_reserved_local_value) \x7b",
    toName,
    "      default: return nullptr;",
    "    \x7d",
    "  \x7d",
    "",
    s!"  static bool EnumIsKnown({enum} emboss_reserved_local_value) \x7b",
    "    switch (emboss_reserved_local_value) \x7b",
    known,
    "      default:",
    "        return false;",
    "    \x7d",
    "  \x7d",
    "",
    "  static ::std::ostream &SendToOstream(::std::ostream &emboss_reserved_local_os,",
    s!"                                       {enum} emboss_reserved_local_value) \x7b",
    "    const char *emboss_reserved_local_name =",
    "        TryToGetNameFromEnum(emboss_reserved_local_value);",
    "    if (emboss_reserved_local_name == nullptr) \x7b",
    "      emboss_reserved_local_os",
    s!"          << static_cast</**/ ::std::underlying_type<{enum}>::type>(",
    "                 emboss_reserved_local_value);",
    "    \x7d else \x7b",
    "      emboss_reserved_local_os << emboss_reserved_local_name;",
    "    \x7d",
    "    return emboss_reserved_local_os;",
    "  \x7d",
    "\x7d;",
    "",
    "static inline bool TryToGetEnumFromName(",
    "    const char *emboss_reserved_local_name,",
    s!"    {enum} *emboss_reserved_local_result) \x7b",
    s!"  return EnumTraits<{enum}>::TryToGetEnumFromName(",
    "      emboss_reserved_local_name, emboss_reserved_local_result);",
    "\x7d",
    "",
    "static inline const char *TryToGetNameFromEnum(",
    s!"    {enum} emboss_reserved_local_value) \x7b",
    s!"  return EnumTraits<{enum}>::TryToGetNameFromEnum(",
    "      emboss_reserved_local_value);",
    "\x7d",
    "",
    s!"static inline bool EnumIsKnown({enum} emboss_reserved_local_value) \x7b",
    s!"  return EnumTraits<{enum}>::EnumIsKnown(emboss_reserved_local_value);",
    "\x7d",
    "",
    "static inline ::std::ostream &operator<<(",
    "    ::std::ostream &emboss_reserved_local_os,",
    s!"    {enum} emboss_reserved_local_value) \x7b",
    s!"  return EnumTraits<{enum}>::SendToOstream(emboss_reserved_local_os,",
    "                                             emboss_reserved_local_value);",
    "\x7d",
    ""]

def enumFromName (enum value name : String) : String :=
  Text.joinLines [
    s!"    if (!strcmp(\"{name}\", emboss_reserved_local_name)) \x7b",
    s!"      *emboss_reserved_local_result = {enum}::{value};",
    "      return true;",
    "    \x7d",
    ""]

def nameFromEnum (enum value name : String) : String :=
  Text.joinLines [
    s!"      case {enum}::{value}: return \"{name}\";",
    ""]

def enumIsKnown (enum name : String) : String :=
  Text.joinLines [
    s!"      case {enum}::{name}: return true;",
    ""]

def enumValue (name value : String) : String :=
  Text.joinLines [
    s!"  {name} = {value},",
    ""]

end BinaryLayout.Cpp.Fragment
