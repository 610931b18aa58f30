import BinaryLayout.Text.Integer
import BinaryLayout.Text.Lines

/-!
# Overloads for many arguments

Two headers of the C++ runtime define a function of any number of arguments by an overload for
each small number of them and one more for all greater numbers.  These are their texts.
-/

namespace BinaryLayout.Cpp

def overloadLimit : Nat := 64

/-- The lines at the start of a header that was made by a generator. -/
def generatedNotice (generator : String) : List String :=
  ["// Copyright 2020 Google LLC",
    "//",
    "// Licensed under the Apache License, Version 2.0 (the \"License\");",
    "// you may not use this file except in compliance with the License.",
    "// You may obtain a copy of the License at",
    "//",
    "//     https://www.apache.org/licenses/LICENSE-2.0",
    "//",
    "// Unless required by applicable law or agreed to in writing, software",
    "// distributed under the License is distributed on an \"AS IS\" BASIS,",
    "// WITHOUT WARRANTIES OR CONDITIONS OF ANY KIND, either express or implied.",
    "// See the License for the specific language governing permissions and",
    "// limitations under the License.",
    "",
    "// GENERATED CODE.  DO NOT EDIT.  REGENERATE WITH",
    "// runtime/cpp/generators/" ++ generator]

def numbered (first last : Nat) (text : String → String) : List String :=
  (List.range' first (last - first)).map fun n : Nat => text (Text.decimal n)

def commaList (texts : List String) : String :=
  String.intercalate ", " texts

/-- The overload of the test that all of `count` arguments are known.  The last one takes any
number of further arguments. -/
def allKnownOverload (count : Nat) : List String :=
  let isLast := count == overloadLimit
  let also (text : String) : List String := if isLast then [text] else []
  ["",
    "template <" ++ commaList (numbered 0 count ("typename T" ++ ·) ++
      also "typename... RestT") ++ ">",
    "inline constexpr bool AllKnown(" ++
      commaList (numbered 0 count (fun n => "T" ++ n ++ " v" ++ n) ++ also "RestT... rest") ++
      ") \x7b",
    "  return " ++ String.intercalate " && " (numbered 0 count (fun n => "v" ++ n ++ ".Known()") ++
      also "AllKnown(rest...)") ++ ";",
    "\x7d"]

def allKnownHeader : String :=
  Text.joinLines (generatedNotice "all_known.py" ++
    (List.range overloadLimit).flatMap fun i => allKnownOverload (i + 1)) ++ "\n"

def parameters (count : Nat) : String :=
  commaList (numbered 0 count ("T v" ++ ·))

def argumentList (first last : Nat) : String :=
  commaList (numbered first last ("v" ++ ·))

/-- The overload of the maximum of `count` arguments: the greater of the maxima of its halves. -/
def maximumOverload (count : Nat) : List String :=
  ["template <typename T>",
    "  static inline constexpr T Do(" ++ parameters count ++ ") \x7b",
    "    return Do(Do(" ++ argumentList 0 (count / 2) ++ "), Do(" ++
      argumentList (count / 2) count ++ "));",
    "  \x7d"]

/-- The overload of the maximum for more arguments than have an overload of their own. -/
def maximumRest : List String :=
  ["",
    "  template <typename T, typename... RestT>",
    "  static inline constexpr T Do(" ++ parameters overloadLimit ++
      ", T rest0, RestT... rest) \x7b",
    "    return Do(Do(" ++ argumentList 0 overloadLimit ++ "), Do(rest0, rest...));",
    "  \x7d"]

def maximumHeader : String :=
  Text.joinLines (generatedNotice "maximum_operation_do.py" ++
    (List.range' 5 (overloadLimit - 4)).flatMap maximumOverload ++ maximumRest) ++ "\n"

end BinaryLayout.Cpp
