import BinaryLayout.Text.Lines

/-!
# C++ namespaces

A namespace is written as names with `::` between them, and perhaps before the first.  Blanks may
stand around every name.
-/

namespace BinaryLayout.Cpp

def isNameStart (c : Char) : Bool :=
  c.isAlpha || c == '_'

def isNameChar (c : Char) : Bool :=
  c.isAlphanum || c == '_'

def afterSeparator? : List Char → Option (List Char)
  | ':' :: ':' :: rest => some rest
  | _ => none

/-- The name at the start of a text, if the text ends after it or goes on with a separator, and
what follows it. -/
def component? (s : List Char) : Option (String × List Char) :=
  let s := Text.trimLeft s
  let name := s.takeWhile isNameChar
  let rest := Text.trimLeft (s.dropWhile isNameChar)
  if name.head?.any isNameStart && (rest.isEmpty || (afterSeparator? rest).isSome) then
    some (String.ofList name, rest)
  else none

theorem length_dropWhile_le {α : Type} (f : α → Bool) (s : List α) :
    (s.dropWhile f).length ≤ s.length :=
  (List.dropWhile_suffix f).length_le

theorem length_of_component? {s rest : List Char} {name : String}
    (found : component? s = some (name, rest)) : rest.length < s.length := by
  simp only [component?, Text.trimLeft, Option.ite_none_right_eq_some, Option.some.injEq,
    Prod.mk.injEq, Bool.and_eq_true] at found
  obtain ⟨⟨named, -⟩, -, rfl⟩ := found
  have trimmed := length_dropWhile_le Text.isBlank s
  have last := length_dropWhile_le Text.isBlank
    ((s.dropWhile Text.isBlank).dropWhile isNameChar)
  have parts : ((s.dropWhile Text.isBlank).takeWhile isNameChar).length +
      ((s.dropWhile Text.isBlank).dropWhile isNameChar).length =
        (s.dropWhile Text.isBlank).length := by
    rw [← List.length_append, List.takeWhile_append_dropWhile]
  have nonempty : 0 < ((s.dropWhile Text.isBlank).takeWhile isNameChar).length := by
    rcases h : (s.dropWhile Text.isBlank).takeWhile isNameChar with _ | ⟨c, r⟩
    · simp [h] at named
    · simp
  omega

theorem length_of_afterSeparator? {s rest : List Char} (found : afterSeparator? s = some rest) :
    rest.length < s.length := by
  unfold afterSeparator? at found
  split at found
  · simp only [Option.some.injEq] at found
    subst found
    simp only [List.length_cons]
    omega
  · simp at found

/-- The name that a place in a text opens: after a separator, or at the start. -/
def nextComponent? (atStart : Bool) (s : List Char) : Option (String × List Char) :=
  let first := if atStart then component? s else none
  first <|> (afterSeparator? s).bind component?

theorem length_of_nextComponent? {atStart : Bool} {s rest : List Char} {name : String}
    (found : nextComponent? atStart s = some (name, rest)) : rest.length < s.length := by
  simp only [nextComponent?, Option.orElse_eq_orElse, Option.orElse_eq_or, Option.or_eq_some_iff,
    Option.bind_eq_some_iff] at found
  rcases found with found | ⟨-, more, separated, found⟩
  · cases atStart
    · simp at found
    · exact length_of_component? (by simpa using found)
  · have := length_of_component? found
    have := length_of_afterSeparator? separated
    omega

/-- The names in a text from a place on. -/
def componentsFrom (atStart : Bool) (s : List Char) : List String :=
  match _found : nextComponent? atStart s with
  | some (name, rest) => name :: componentsFrom false rest
  | none =>
    match s with
    | [] => []
    | _ :: rest => componentsFrom false rest
termination_by s.length
decreasing_by
  · exact length_of_nextComponent? _found
  · simp

def components (s : String) : List String :=
  componentsFrom true s.toList

/-- Whether a text is names with separators between them. -/
def isComponentList (s : List Char) : Bool :=
  match _found : component? s with
  | none => false
  | some (_, rest) =>
    match _separated : afterSeparator? rest with
    | none => rest.isEmpty
    | some more => isComponentList more
termination_by s.length
decreasing_by
  have := length_of_component? _found
  have := length_of_afterSeparator? _separated
  omega

def isNamespace (s : String) : Bool :=
  let s := Text.trimLeft s.toList
  isComponentList ((afterSeparator? s).getD s)

/-- Words that cannot be names, and some that a macro may stand behind. -/
def reservedWords : List String :=
  ["asm", "auto", "break", "case", "char", "const", "continue", "default", "do", "double",
    "else", "enum", "extern", "float", "for", "fortran", "goto", "if", "inline", "int", "long",
    "register", "restrict", "return", "short", "signed", "sizeof", "static", "struct", "switch",
    "typedef", "union", "unsigned", "void", "volatile", "while", "_Alignas", "_Alignof",
    "_Atomic", "_Bool", "_Complex", "_Generic", "_Imaginary", "_Noreturn", "_Pragma",
    "_Static_assert", "_Thread_local", "complex", "imaginary", "noreturn", "alignas", "alignof",
    "and", "and_eq", "bitand", "bitor", "bool", "catch", "char16_t", "char32_t", "class",
    "compl", "concept", "constexpr", "const_cast", "decltype", "delete", "dynamic_cast",
    "explicit", "export", "false", "friend", "mutable", "namespace", "new", "noexcept", "not",
    "not_eq", "nullptr", "operator", "or", "or_eq", "private", "protected", "public",
    "reinterpret_cast", "requires", "static_assert", "static_cast", "template", "this",
    "thread_local", "throw", "true", "try", "typeid", "typename", "using", "virtual", "wchar_t",
    "xor", "xor_eq", "NULL"]

end BinaryLayout.Cpp
