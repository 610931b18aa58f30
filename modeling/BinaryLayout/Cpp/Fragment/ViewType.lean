import BinaryLayout.Text.Lines

/-!
# View types

The names of the types through which a field is read and written.
-/

namespace BinaryLayout.Cpp.Fragment

def structureView (scope name storage : String) : String :=
  Text.joinLines [
    s!"{scope}::Generic{name}View<typename {storage}>",
    "",
    ""]

def externalView (scope name bits validator storage : String) : String :=
  Text.joinLines [
    s!"{scope}::{name}View<",
    s!"    /**/ ::emboss::support::FixedSizeViewParameters<{bits}, {validator}>,",
    s!"    typename {storage}>",
    "",
    ""]

def enumView (type bits validator storage : String) : String :=
  Text.joinLines [
    "::emboss::support::EnumView<",
    s!"    /**/ {type},",
    s!"    ::emboss::support::FixedSizeViewParameters<{bits}, {validator}>,",
    s!"    typename {storage}>",
    "",
    ""]

def arrayView (element storage elementSize unitBits parameterTypes : String) : String :=
  Text.joinLines [
    "::emboss::support::GenericArrayView<",
    s!"    typename {element}, typename {storage}, {elementSize},",
    s!"    {unitBits} {parameterTypes}>",
    "",
    ""]

end BinaryLayout.Cpp.Fragment
