import BinaryLayout.LR.Production

/-!
# The grammar of layout definitions

The productions of the language.  A symbol that ends in `*`, `+` or `?` stands for any number,
at least one or at most one of the symbol before the mark; the productions of such symbols are
not listed but follow from their marks.
-/

namespace BinaryLayout.Language

open LR (Production)

def moduleSymbol : String := "module"

def expressionSymbol : String := "expression"

def writtenRules : List String :=
  ["module -> comment-line* doc-line* import-line* attribute-line* type-definition*",
    "import-line -> \"import\" string-constant \"as\" snake-word Comment? eol",
    "doc-line -> doc Comment? eol",
    "doc -> Documentation",
    "attribute-line -> attribute Comment? eol",
    "attribute -> \"[\" attribute-context? \"$default\"? snake-word \":\" attribute-value \"]\"",
    "attribute-context -> \"(\" snake-word \")\"",
    "attribute-value -> expression",
    "attribute-value -> string-constant",
    "boolean-constant -> BooleanConstant",
    "string-constant -> String",
    "logical-expression -> and-expression",
    "logical-expression -> or-expression",
    "logical-expression -> comparison-expression",
    "choice-expression -> logical-expression",
    "expression -> choice-expression",
    "choice-expression -> logical-expression \"?\" logical-expression \":\" logical-expression",
    "comparison-expression -> additive-expression",
    "comparison-expression -> additive-expression inequality-operator additive-expression",
    "additive-expression -> times-expression additive-expression-right*",
    "times-expression -> negation-expression times-expression-right*",
    "and-expression -> comparison-expression and-expression-right+",
    "or-expression -> comparison-expression or-expression-right+",
    "comparison-expression -> additive-expression equality-expression-right+",
    "comparison-expression -> additive-expression less-expression-right-list",
    "comparison-expression -> additive-expression greater-expression-right-list",
    "greater-expression-right-list -> equality-expression-right* greater-expression-right " ++
      "equality-or-greater-expression-right*",
    "less-expression-right-list -> equality-expression-right* less-expression-right " ++
      "equality-or-less-expression-right*",
    "equality-or-greater-expression-right -> equality-expression-right",
    "equality-or-greater-expression-right -> greater-expression-right",
    "equality-or-less-expression-right -> equality-expression-right",
    "equality-or-less-expression-right -> less-expression-right",
    "and-expression-right -> and-operator comparison-expression",
    "or-expression-right -> or-operator comparison-expression",
    "additive-expression-right -> additive-operator times-expression",
    "equality-expression-right -> equality-operator additive-expression",
    "greater-expression-right -> greater-operator additive-expression",
    "less-expression-right -> less-operator additive-expression",
    "times-expression-right -> multiplicative-operator negation-expression",
    "negation-expression -> additive-operator bottom-expression",
    "negation-expression -> bottom-expression",
    "bottom-expression -> \"(\" expression \")\"",
    "bottom-expression -> function-name \"(\" argument-list \")\"",
    "comma-then-expression -> \",\" expression",
    "argument-list -> expression comma-then-expression*",
    "argument-list ->",
    "bottom-expression -> numeric-constant",
    "bottom-expression -> constant-reference",
    "bottom-expression -> builtin-reference",
    "bottom-expression -> boolean-constant",
    "bottom-expression -> field-reference",
    "field-reference -> snake-reference field-reference-tail*",
    "field-reference-tail -> \".\" snake-reference",
    "numeric-constant -> Number",
    "type-definition -> struct",
    "type-definition -> bits",
    "type-definition -> enum",
    "type-definition -> external",
    "struct -> \"struct\" type-name delimited-parameter-definition-list? \":\" Comment? eol " ++
      "struct-body",
    "bits -> \"bits\" type-name delimited-parameter-definition-list? \":\" Comment? eol " ++
      "bits-body",
    "delimited-parameter-definition-list -> \"(\" parameter-definition-list \")\"",
    "parameter-definition -> snake-name \":\" type",
    "parameter-definition-list-tail -> \",\" parameter-definition",
    "parameter-definition-list -> parameter-definition parameter-definition-list-tail*",
    "parameter-definition-list ->",
    "struct-body -> Indent doc-line* attribute-line* type-definition* struct-field-block Dedent",
    "struct-field-block ->",
    "bits-field-block ->",
    "anonymous-bits-field-block ->",
    "struct-field-block -> conditional-struct-field-block struct-field-block",
    "bits-field-block -> conditional-bits-field-block bits-field-block",
    "anonymous-bits-field-block -> conditional-anonymous-bits-field-block " ++
      "anonymous-bits-field-block",
    "struct-field-block -> unconditional-struct-field struct-field-block",
    "bits-field-block -> unconditional-bits-field bits-field-block",
    "anonymous-bits-field-block -> unconditional-anonymous-bits-field anonymous-bits-field-block",
    "unconditional-struct-field -> field",
    "unconditional-struct-field -> inline-enum-field-definition",
    "unconditional-struct-field -> inline-bits-field-definition",
    "unconditional-struct-field -> inline-struct-field-definition",
    "unconditional-struct-field -> anonymous-bits-field-definition",
    "unconditional-struct-field -> virtual-field",
    "unconditional-anonymous-bits-field -> field",
    "unconditional-anonymous-bits-field -> inline-enum-field-definition",
    "unconditional-anonymous-bits-field -> inline-bits-field-definition",
    "unconditional-bits-field -> unconditional-anonymous-bits-field",
    "unconditional-bits-field -> virtual-field",
    "conditional-struct-field-block -> \"if\" expression \":\" Comment? eol Indent " ++
      "unconditional-struct-field+ Dedent",
    "conditional-bits-field-block -> \"if\" expression \":\" Comment? eol Indent " ++
      "unconditional-bits-field+ Dedent",
    "conditional-anonymous-bits-field-block -> \"if\" expression \":\" Comment? eol Indent " ++
      "unconditional-anonymous-bits-field+ Dedent",
    "bits-body -> Indent doc-line* attribute-line* type-definition* bits-field-block Dedent",
    "anonymous-bits-body -> Indent attribute-line* anonymous-bits-field-block Dedent",
    "field -> field-location type snake-name abbreviation? attribute* doc? Comment? eol " ++
      "field-body?",
    "virtual-field -> \"let\" snake-name \"=\" expression Comment? eol field-body?",
    "inline-enum-field-definition -> field-location \"enum\" snake-name abbreviation? \":\" " ++
      "Comment? eol enum-body",
    "inline-struct-field-definition -> field-location \"struct\" snake-name abbreviation? \":\" " ++
      "Comment? eol struct-body",
    "inline-bits-field-definition -> field-location \"bits\" snake-name abbreviation? \":\" " ++
      "Comment? eol bits-body",
    "anonymous-bits-field-definition -> field-location \"bits\" \":\" Comment? eol " ++
      "anonymous-bits-body",
    "field-body -> Indent doc-line* attribute-line* Dedent",
    "abbreviation -> \"(\" snake-word \")\"",
    "enum -> \"enum\" type-name \":\" Comment? eol enum-body",
    "enum-body -> Indent doc-line* attribute-line* enum-value+ Dedent",
    "enum-value -> constant-name \"=\" expression attribute* doc? Comment? eol enum-value-body?",
    "enum-value-body -> Indent doc-line* attribute-line* Dedent",
    "external -> \"external\" type-name \":\" Comment? eol external-body",
    "external-body -> Indent doc-line* attribute-line* Dedent",
    "field-location -> expression \"[\" \"+\" expression \"]\"",
    "delimited-argument-list -> \"(\" argument-list \")\"",
    "type -> type-reference delimited-argument-list? type-size-specifier? " ++
      "array-length-specifier*",
    "type-size-specifier -> \":\" numeric-constant",
    "type-name -> type-word",
    "snake-name -> snake-word",
    "constant-name -> constant-word",
    "type-word -> CamelWord",
    "snake-word -> SnakeWord",
    "builtin-field-word -> \"$size_in_bits\"",
    "builtin-field-word -> \"$size_in_bytes\"",
    "builtin-field-word -> \"$max_size_in_bits\"",
    "builtin-field-word -> \"$max_size_in_bytes\"",
    "builtin-field-word -> \"$min_size_in_bits\"",
    "builtin-field-word -> \"$min_size_in_bytes\"",
    "builtin-word -> \"$is_statically_sized\"",
    "builtin-word -> \"$static_size_in_bits\"",
    "builtin-word -> \"$next\"",
    "constant-word -> ShoutyWord",
    "and-operator -> \"&&\"",
    "or-operator -> \"||\"",
    "less-operator -> \"<=\"",
    "less-operator -> \"<\"",
    "greater-operator -> \">=\"",
    "greater-operator -> \">\"",
    "equality-operator -> \"==\"",
    "inequality-operator -> \"!=\"",
    "additive-operator -> \"+\"",
    "additive-operator -> \"-\"",
    "multiplicative-operator -> \"*\"",
    "function-name -> \"$max\"",
    "function-name -> \"$present\"",
    "function-name -> \"$upper_bound\"",
    "function-name -> \"$lower_bound\"",
    "type-reference -> type-reference-tail",
    "constant-reference -> constant-reference-tail",
    "constant-reference-tail -> constant-word",
    "type-reference-tail -> type-word",
    "snake-reference -> snake-word",
    "snake-reference -> builtin-field-word",
    "builtin-reference -> builtin-word",
    "constant-reference -> snake-reference \".\" constant-reference-tail",
    "constant-reference-tail -> type-word \".\" constant-reference-tail",
    "constant-reference-tail -> type-word \".\" snake-reference",
    "type-reference-tail -> type-word \".\" type-reference-tail",
    "type-reference -> snake-word \".\" type-reference-tail",
    "array-length-specifier -> \"[\" expression \"]\"",
    "array-length-specifier -> \"[\" \"]\"",
    "eol -> \"\\n\" comment-line*",
    "comment-line -> Comment? \"\\n\""]

def rule (text : String) : Production :=
  match Text.words text with
  | lhs :: _ :: rhs => ⟨lhs, rhs⟩
  | words => ⟨"", words⟩

def writtenProductions : List Production :=
  writtenRules.map rule

def marked (mark : Char) : List String :=
  (writtenProductions.flatMap fun p => p.rhs.filterMap fun symbol =>
    if symbol.toList.getLast? = some mark then some (String.ofList symbol.toList.dropLast)
    else none).eraseDups

/-- The productions that follow from the marks.  One or more is one and then any number, so it
brings in the productions for any number. -/
def markProductions : List Production :=
  let stars := (marked '*' ++ marked '+').eraseDups
  let starred := stars.flatMap fun s => [⟨s ++ "*", [s, s ++ "*"]⟩, ⟨s ++ "*", []⟩]
  let plussed := (marked '+').map fun s => ⟨s ++ "+", [s, s ++ "*"]⟩
  let optional := (marked '?').flatMap fun s => [⟨s ++ "?", [s]⟩, ⟨s ++ "?", []⟩]
  starred ++ plussed ++ optional

def productions : List Production :=
  (writtenProductions ++ markProductions).mergeSort Production.le

end BinaryLayout.Language
