import BinaryLayout.Text.Lines

/-!
# The outline of a header

The parts of a generated header around the code for its types.
-/

namespace BinaryLayout.Cpp.Fragment

def outline (guardName includes body : String) : String :=
  Text.joinLines [
    "/**",
    " * Generated by the Emboss compiler.  DO NOT EDIT!",
    " */",
    s!"#ifndef {guardName}",
    s!"#define {guardName}",
    "#include <stdint.h>",
    "#include <string.h>",
    "",
    "#include <algorithm>",
    "#include <type_traits>",
    "#include <utility>",
    "",
    "#include \"runtime/cpp/emboss_cpp_util.h\"",
    "",
    includes,
    "",
    "/* NOLINTBEGIN */",
    body,
    "/* NOLINTEND */",
    "",
    s!"#endif  // {guardName}",
    "",
    ""]

def includeFile (fileName : String) : String :=
  Text.joinLines [
    s!"#include \"{fileName}\"",
    "",
    ""]

/-- The code for all types: declarations, then definitions, then methods. -/
def body (declarations definitions methods : String) : String :=
  Text.joinLines [
    declarations,
    definitions,
    methods,
    "",
    ""]

def inNamespace (component body : String) : String :=
  Text.joinLines [
    s!"namespace {component} \x7b",
    body,
    s!"\x7d  // namespace {component}",
    "",
    ""]

end BinaryLayout.Cpp.Fragment
