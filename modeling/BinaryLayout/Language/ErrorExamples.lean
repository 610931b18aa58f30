import BinaryLayout.Language.Examples

/-!
# Examples of errors

Texts that are wrong in a typical way, by the message that explains them.  In an example `$ERR`
stands before the token at which the error is found, and `$ANY` for any token.
-/

namespace BinaryLayout.Language

/-- The lines of a section: a double line, the message, a single line and the examples, with some
empty lines at the end. -/
def exampleSection (message : String) (examples : List String) (blanks : Nat := 2) : List String :=
  sectionLine :: message :: messageLine :: examples.intersperse "---" ++ List.replicate blanks ""

def errorExampleLines : List String :=
  "" :: List.flatten [
  exampleSection "A name is required for a struct field." [
    "# First example.\nstruct Foo:\n  0 [+1]   UInt  $ERR  # Missing name (end of struct).",
    "# Second example -- error on newline token, not comment token.\nstruct Foo:\n" ++
      "  0 [+1]   UInt  $ERR"],
  exampleSection "Module attributes must appear before type definitions." [
    "struct Foo:\n  0 [+1]   UInt   field\n\n$ERR [attrib: VALUE]  # Attribute after types."],
  exampleSection "A type name must be CamelCase." [
    "struct $ERR foo: # snake_case", "struct $ERR FOO: # SHOUTY",
    "struct $ERR Foo_: # Not a valid identifier", "bits $ERR foo:", "bits $ERR FOO:",
    "bits $ERR Foo_:", "enum $ERR foo:", "enum $ERR FOO:", "enum $ERR Foo_:",
    "external $ERR foo:", "external $ERR FOO:", "external $ERR Foo_:",
    "bits Type:\n  bits $ERR foo:", "bits Type:\n  bits $ERR FOO:",
    "bits Type:\n  bits $ERR Foo_:", "bits Type:\n  struct $ERR foo:",
    "bits Type:\n  struct $ERR FOO:", "bits Type:\n  struct $ERR Foo_:",
    "bits Type:\n  enum $ERR foo:", "bits Type:\n  enum $ERR FOO:",
    "bits Type:\n  enum $ERR Foo_:", "bits Type:\n  external $ERR foo:",
    "bits Type:\n  external $ERR FOO:", "bits Type:\n  external $ERR Foo_:"],
  exampleSection "Expected type name." [
    "struct $ERR $ANY", "bits $ERR $ANY", "enum $ERR $ANY", "external $ERR $ANY",
    "bits Type:\n  bits $ERR $ANY", "bits Type:\n  struct $ERR $ANY",
    "bits Type:\n  enum $ERR $ANY", "bits Type:\n  external $ERR $ANY"],
  exampleSection "Expected ':' after type name." [
    "struct Type $ERR $ANY", "bits Type $ERR $ANY", "enum Type $ERR $ANY",
    "external Type $ERR $ANY"],
  exampleSection "Expected end of line." [
    "struct Type: $ERR $ANY", "bits Type: $ERR $ANY", "enum Type: $ERR $ANY",
    "external Type: $ERR $ANY", "bits Type:\n  enum Type: $ERR $ANY",
    "bits Type:\n  struct Type: $ERR $ANY", "bits Type:\n  external Type: $ERR $ANY",
    "struct Type:\n  enum Type: $ERR $ANY", "struct Type:\n  external Type: $ERR $ANY",
    "struct Type:\n  bits Type: $ERR $ANY", "bits Type:\n  if false: $ERR $ANY",
    "struct Type:\n  if false: $ERR $ANY", "struct Type:\n  0 [+0] bits: $ERR $ANY",
    "struct Type:\n  if false:\n    0 [+0] bits: $ERR $ANY",
    "struct Type:\n  0 [+0] enum name: $ERR $ANY",
    "struct Type:\n  if false:\n    0 [+0] enum name: $ERR $ANY"],
  exampleSection "Expected documentation, an import, a module attribute, or a type at top level." [
    "$ERR $ANY"],
  exampleSection "Expected an import, a module attribute, or a type definition." [
    "-- doc\n$ERR $ANY"],
  exampleSection "Expected an import, a module attribute, or a type definition." [
    "import \"string\" as name\n$ERR $ANY"],
  exampleSection "Imports should follow the form 'import \"file_name.emb\" as name'." [
    "import $ERR $ANY", "import \"string\" $ERR $ANY", "import \"string\" as $ERR $ANY"],
  exampleSection "An import statement must be on its own line." [
    "import \"string\" as name $ERR $ANY"],
  exampleSection "Expected inline type definition or field definition." [
    "struct Type:\n  external Type:\n    --\n  $ERR $ANY"],
  exampleSection "Nested type definitions must come before fields." [
    "struct Type:\n  VALUE [+0] Type name\n  $ERR struct",
    "struct Type:\n  VALUE [+0] Type name\n  $ERR enum",
    "struct Type:\n  VALUE [+0] Type name\n  $ERR bits"],
  exampleSection "Type documentation must come before fields." [
    "struct Type:\n  VALUE [+0] Type name\n  $ERR -- doc"],
  exampleSection "Expected field definition." [
    "struct Type:\n  VALUE [+0] Type name\n  $ERR $ANY"],
  exampleSection "Expected documentation, attribute, or enum value for inline enum." [
    "struct Type:\n  VALUE [+0] enum name:\n    $ERR $ANY"],
  exampleSection
      "Attributes must be of the form '[name: value]', '[(domain) name: value]', or '[$default name: value]'" [
    "[ $ERR $ANY", "struct Type:\n  VALUE [+0] Type name [name: $ERR $ANY", "[( $ERR $ANY",
    "[(name $ERR $ANY", "[(name) $ERR $ANY", "[$default $ERR $ANY", "[name $ERR $ANY",
    "[name: $ERR $ANY", "[name: VALUE $ERR $ANY", "[name: false $ERR $ANY",
    "[name: name $ERR $ANY", "[name: \"string\" $ERR $ANY", "[name: Type $ERR $ANY",
    "[name: 0 $ERR $ANY"],
  exampleSection "Expected a variable, constant, or expression." [
    "# The top-of-stack parser states here are common to expression parsing; the\n" ++
      "# module-attribute prefix is just the shortest prefix that gets to an\n# expression.\n" ++
      "[name: ( $ERR $ANY",
    "# Yes, '((' puts the parser in a slightly different state than '('.\n" ++
      "# Fortunately, '(((' and on are equivalent to '(('.\n[name: (( $ERR $ANY",
    "[name: + $ERR $ANY", "[name: - $ERR $ANY", "[name: 0 != ( $ERR $ANY",
    "struct Type:\n  ( $ERR $ANY"],
  exampleSection "Documentation must come before any enumeration values." [
    "enum Type:\n  VALUE = VALUE\n    --\n  $ERR -- doc"] 1,
  exampleSection "Attributes must come before any enumeration values." [
    "enum Type:\n  VALUE = VALUE\n    --\n  $ERR [attribute: value]"],
  exampleSection "Expected 'NAME = value' pair." [
    "enum Type:\n  VALUE = VALUE\n    --\n  $ERR $ANY"],
  exampleSection "Documentation must come before attributes." [
    "[name: VALUE]\n$ERR -- doc", "enum Type:\n  [name: \"string\"]\n  $ERR -- doc",
    "external Type:\n  [name: \"string\"]\n  $ERR -- doc",
    "struct Type:\n  [name: \"string\"]\n  $ERR -- doc",
    "bits Type:\n  [name: \"string\"]\n  $ERR -- doc"],
  exampleSection "Imports must come before module attributes." [
    "[name: VALUE]\n$ERR import"],
  exampleSection "Expected an attribute or a type definition." [
    "[name: VALUE]\n$ERR $ANY"],
  exampleSection "Expected documentation or attribute for field.  (Wrong indent?)" [
    "struct Type :\n  VALUE [+0] Type name\n    $ERR $ANY"],
  exampleSection "Documentation must come before nested types." [
    "struct Type:\n  enum Type:\n    VALUE = VALUE\n  $ERR -- doc"],
  exampleSection "Attributes must come before nested types." [
    "struct Type:\n  enum Type:\n    VALUE = VALUE\n  $ERR ["],
  exampleSection "Expected nested type or field definition." [
    "struct Type:\n  enum Type:\n    VALUE = VALUE\n  $ERR $ANY"],
  exampleSection "Documentation must come before field definitions." [
    "struct Type:\n  VALUE [+0] Type name\n    --\n  $ERR -- doc"],
  exampleSection "Attributes must come before field definitions." [
    "struct Type:\n  VALUE [+0] Type name\n    --\n  $ERR ["],
  exampleSection "Nested types must come before field definitions." [
    "struct Type :\n  VALUE [+0] Type name\n    --\n  $ERR enum",
    "struct Type :\n  VALUE [+0] Type name\n    --\n  $ERR struct",
    "struct Type :\n  VALUE [+0] Type name\n    --\n  $ERR bits",
    "struct Type :\n  VALUE [+0] Type name\n    --\n  $ERR external"],
  exampleSection "Expected field definition." [
    "struct Type :\n  VALUE [+0] Type name\n    --\n  $ERR $ANY"],
  exampleSection "Expected attribute or end of line." [
    "struct Type:\n  VALUE [+0] Type name [name: VALUE] $ERR $ANY"],
  exampleSection "Module documentation must come before imports." [
    "import \"string\" as name\n$ERR -- doc"],
  exampleSection "Body of a type definition must be non-empty and indented." [
    "bits Type:\n$ERR $ANY", "external Type:\n$ERR $ANY", "struct Type:\n$ERR $ANY",
    "enum Type:\n$ERR $ANY"],
  exampleSection "Expected documentation, attribute, nested type, or field definition." [
    "bits Type:\n  $ERR $ANY", "struct Type:\n  $ERR $ANY"],
  exampleSection "Expected documentation or attribute." [
    "external Type:\n  $ERR $ANY"],
  exampleSection "Expected documentation, attribute, or enumeration value." [
    "enum Type:\n  $ERR $ANY"],
  exampleSection "Enumerations may not contain subtypes." [
    "enum Type:\n  $ERR bits", "enum Type:\n  $ERR struct", "enum Type:\n  $ERR external",
    "enum Type:\n  $ERR enum"],
  exampleSection "Expected operator or closing parenthesis." [
    "[name: (name $ERR $ANY", "[name: (VALUE $ERR $ANY", "[name: (false $ERR $ANY",
    "[name: (0 $ERR $ANY", "[name: ((false) $ERR $ANY"],
  exampleSection "Expected arithmetic operator or closing parenthesis." [
    "[name: (0 != 0 $ERR $ANY", "[name: (0 != VALUE $ERR $ANY", "[name: (0 != false $ERR $ANY"],
  exampleSection "Expected arithmetic operator or end of attribute." [
    "[name: 0 != VALUE $ERR $ANY", "[name: 0 != 0 $ERR $ANY", "[name: 0 != false $ERR $ANY"],
  exampleSection "Expected operator or '.'." [
    "[name: 0 != name $ERR $ANY"],
  exampleSection
      "Expected operator or closing parenthesis; enumerated values do not have subfields." [
    "[name: (VALUE $ERR ."],
  exampleSection "Expected name." [
    "[name: Type. $ERR $ANY"],
  exampleSection "Field locations must be of the form 'start [+length]'.  Missing '+'?" [
    "struct Foo:\n  0 [ $ERR 0", "struct Foo:\n  0 [ $ERR name", "struct Foo:\n  0 [ $ERR VALUE",
    "struct Foo:\n  0 [ $ERR Type", "struct Foo:\n  0 [ $ERR 0", "struct Foo:\n  0 [ $ERR name",
    "struct Foo:\n  0 [ $ERR VALUE", "struct Foo:\n  0 [ $ERR Type"],
  exampleSection "Right operand must be an expression." [
    "[name: 0 * $ERR $ANY", "[name: 0 + $ERR $ANY", "[name: 0 - $ERR $ANY",
    "[name: 0 == $ERR $ANY", "[name: 0 != $ERR $ANY", "[name: VALUE * $ERR $ANY",
    "[name: VALUE + $ERR $ANY", "[name: VALUE - $ERR $ANY", "[name: VALUE == $ERR $ANY",
    "[name: VALUE != $ERR $ANY"],
  exampleSection "Attribute must appear on its own line." [
    "[name: false] $ERR $ANY"],
  exampleSection "Expected subtype or enumeration name." [
    "[name: (Type. $ERR $ANY"],
  exampleSection "Attribute missing closing ']'." [
    "[name: (0) $ERR"],
  exampleSection "Expected operator or end of attribute." [
    "[name: (0) $ERR $ANY"],
  exampleSection "Expected subfield name." [
    "[name: (name. $ERR $ANY", "[name: name. $ERR $ANY", "[name: 0 == name. $ERR $ANY"],
  exampleSection "Expected expression for size of field." [
    "struct Foo:\n  0 [+ $ERR $ANY"],
  exampleSection "Unexpected enum name; possibly incorrect indentation." [
    "enum Type:\n  VALUE = VALUE\n    --\n    $ERR VALUE = VALUE"],
  exampleSection "Space is required after '--'." [
    "enum Type:\n  VALUE = VALUE\n    --\n    $ERR --No space"],
  exampleSection "Expected documentation or next value." [
    "enum Type:\n  VALUE = VALUE\n    --\n    $ERR $ANY"],
  exampleSection "Expected '=' after enumerated name." [
    "enum Type:\n  VALUE $ERR $ANY"],
  exampleSection "Parentheses are required to mix '&&' and '||'." [
    "struct Foo:\n  if a && b && c $ERR ||", "struct Foo:\n  if a || b || c $ERR &&"],
  exampleSection "Greater-than comparisons may only be chained with equality and greater-than." [
    "struct Foo:\n  if a > b $ERR <", "struct Foo:\n  if a > b $ERR <="],
  exampleSection "Less-than comparisons may only be chained with equality and less-than." [
    "struct Foo:\n  if a < b $ERR >", "struct Foo:\n  if a < b $ERR >="],
  exampleSection "Chained or nested choice operations ('?:') require explicit parentheses." [
    "struct Foo:\n  if a ? b : c $ERR ?", "struct Foo:\n  if a ? b $ERR ?"],
  exampleSection
      "Virtual fields are not allowed in anonymous 'bits' constructs; place them in the enclosing type." [
    "struct Foo:\n  0 [+1]  bits:\n    $ERR let x = 0"] 1]

def errorExampleText : String :=
  String.intercalate "\n" errorExampleLines

end BinaryLayout.Language
