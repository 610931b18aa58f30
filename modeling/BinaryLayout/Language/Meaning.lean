import BinaryLayout.LR.Transform
import BinaryLayout.Language.Value
import BinaryLayout.Naming

/-!
# From parse trees to the intermediate representation

Each production of the grammar says how the meaning of a part follows from those of the parts in
it.  Chains of operators group to the left, a chain of comparisons stands for the conjunction of
its links, and types that are defined inside a field move out of it.

An unnamed field gets a name from a running number.  Since a tree is read from its end, the last
unnamed field of a module gets the lowest number.
-/

namespace BinaryLayout.Language

open IR

/-- Making a meaning uses up numbers for unnamed fields, and fails on parts that do not belong
together. -/
abbrev MeaningM := StateT Nat (Except Failure)

/-- From where one part begins to where another ends. -/
def span (first last : Option Location) : Option Location :=
  some ⟨(first.getD .unknown).start, (last.getD .unknown).stop, false, false⟩

def operatorOf? (text : String) : Option Operator :=
  [("+", .addition), ("-", .subtraction), ("*", .multiplication), ("==", .equality),
    ("!=", .inequality), ("&&", .and), ("||", .or), (">", .greater), (">=", .greaterOrEqual),
    ("<", .less), ("<=", .lessOrEqual)].lookup text

def functionOf? (text : String) : Option Operator :=
  [("$max", .maximum), ("$present", .presence), ("$upper_bound", .upperBound),
    ("$lower_bound", .lowerBound)].lookup text

def textOf (w : Word) : String :=
  w.text.getD ""

def binary (operator : Option Operator) (name : Word) (left right : Expression)
    (location outer : Option Location) : Expression :=
  .function operator [left, right] (some name) location { location := outer }

def leftChain (first : Expression) : List (Word × Expression × Option Location) → Expression
  | [] => first
  | (operator, right, location) :: rest =>
    let whole := span first.location location
    leftChain (binary (operatorOf? (textOf operator)) operator first right whole whole) rest

def comparisonLinks (first : Expression) :
    List (Word × Expression × Option Location) → List Expression
  | [] => []
  | (operator, right, _) :: rest =>
    let whole := span first.location right.location
    binary (operatorOf? (textOf operator)) operator first right whole whole ::
      comparisonLinks right rest

/-- The conjunction of the links of a chain of comparisons, grouped to the left. -/
def conjunction (first : Expression) : List Expression → Expression
  | [] => first
  | link :: rest =>
    let whole := span first.location link.location
    let name : Word := ⟨some "&&", (link.call?.bind (·.args.head?)).bind (·.location)⟩
    conjunction (binary (some .and) name first link whole whole) rest

def comparisonChain (first : Expression) (tails : List (Word × Expression × Option Location)) :
    Expression :=
  match comparisonLinks first tails with
  | [] => first
  | link :: rest => conjunction link rest

/-- A string without its quotes and escapes. -/
def unescape : List Char → List Char
  | '\\' :: c :: rest => (if c = 'n' then '\n' else c) :: unescape rest
  | c :: rest => c :: unescape rest
  | [] => []

def stringText (token : String) : String :=
  String.ofList (unescape ((token.toList.drop 1).dropLast))

/-- The value of a number token: underscores group digits, `0b` and `0x` give the base. -/
def numberValue (token : String) : Nat :=
  let digits := token.toList.filter (· != '_')
  match digits with
  | '0' :: 'b' :: rest => Text.digitsValue 2 0 rest
  | '0' :: 'x' :: rest => Text.digitsValue 16 0 rest
  | _ => Text.digitsValue 10 0 digits

/-- The text of a documentation token; the blank after the dashes may be missing if there is
nothing else. -/
def documentationText (token : String) : String :=
  String.ofList (token.toList.drop 3)

def preludeImport (position : Position) : Import :=
  let location : Option Location := some ⟨position, position, false, false⟩
  ⟨some ⟨some "", location⟩, some ⟨some "", location⟩, location⟩

/-- A module.  The import of the prelude stands before the first import, after the first line of
documentation, or before the first of what else there is. -/
def moduleOf (documentation : List Documentation) (imports : List Import)
    (attributes : List Attribute) (types : List TypeDefinition) : Module :=
  let startOf (l : Option Location) : Position := (l.getD .unknown).start
  let position : Position :=
    match imports, documentation, attributes, types with
    | i :: _, _, _, _ => startOf i.location
    | [], d :: _, _, _ => (d.location.getD .unknown).stop
    | [], [], a :: _, _ => startOf a.location
    | [], [], [], t :: _ => startOf t.location
    | [], [], [], [] => ⟨1, 1⟩
  let isEmpty :=
    documentation.isEmpty && imports.isEmpty && attributes.isEmpty && types.isEmpty
  { documentation := documentation
    imports := preludeImport position :: imports
    attributes := attributes
    types := types
    location := if isEmpty then some (.onLine 1 1 1) else none }

def structureBody (documentation : List Documentation) (attributes : List Attribute)
    (types : List TypeDefinition) (fields : List (Field × List TypeDefinition))
    (unit : AddressableUnit) : TypeDefinition :=
  { body := .record { fields := fields.map (·.1) }
    documentation := documentation
    attributes := attributes
    subtypes := types ++ fields.flatMap (·.2)
    unit := some unit }

def placeBody (l : Option Location) : TypeBody → TypeBody
  | .record s => .record { s with location := l }
  | .enumeration e => .enumeration { e with location := l }
  | other => other

/-- A field whose type is defined with it.  The attributes belong to the field, and the types
defined inside move out beside the type itself. -/
def inlineField (placement : Placement) (name : NameDefinition) (abbreviation : Option Word)
    (body : TypeDefinition) : MeaningM Value := do
  let word := name.name.getD {}
  let typeWord : Word := { word with text := some (snakeToCamel (textOf word)) }
  let typeName : NameDefinition := { name with name := some typeWord }
  let place := typeName.location
  let reference : Reference :=
    { sourceName := [typeWord], isLocalName := some true, location := place }
  let location ← Location.merge [placement.location, body.location]
  let field : Field :=
    { placement := some placement
      type := some (.atomic ⟨some reference, [], place⟩ none place)
      name := some name
      abbreviation := abbreviation
      attributes := body.attributes
      documentation := body.documentation
      location := location }
  let inner : TypeDefinition :=
    { body with
      attributes := []
      subtypes := []
      name := some typeName
      body := placeBody location body.body
      location := location }
  return .field field (inner :: body.subtypes) none

/-- The type of a field: a name, its arguments, its size, and the lengths of arrays from the
innermost on. -/
def typeOf (reference : Reference) (arguments size lengths : Value) : TypeSpec :=
  let nameEnd := (reference.location.getD .unknown).stop
  let endOf (v : Value) (otherwise : Position) : Position :=
    if v.elements.isEmpty then otherwise else (v.location.getD .unknown).stop
  let atomEnd := endOf arguments nameEnd
  let baseEnd := endOf size atomEnd
  let start := (reference.location.getD .unknown).start
  let args := (arguments.elements.head?.map Value.expressions).getD []
  let base : TypeSpec :=
    .atomic ⟨some reference, args, some ⟨start, atomEnd, false, false⟩⟩ size.expressions.head?
      (some ⟨start, baseEnd, false, false⟩)
  lengths.elements.foldl
    (fun t length =>
      let location := span t.location length.location
      match length with
      | .expression e => .array (some t) (.count e) location none location
      | .blank b => .array (some t) (.automatic b) location none location
      | _ => t)
    base

def nextAnonymousName : MeaningM String := do
  let n ← get
  set (n + 1)
  return "emboss_reserved_anonymous_field_" ++ Text.decimal (n + 1 : Nat)

/-- Parts that do not belong together. -/
def misfit : MeaningM Value :=
  throw .invariant

def expressionMeaning (lhs : String) (parts : List Value) : MeaningM Value :=
  match lhs, parts with
  | "choice-expression",
      [.expression condition, .token question, .expression ifTrue, .token colon,
        .expression ifFalse] =>
    let location := span condition.location ifFalse.location
    let name : Word := ⟨some "?:", span question.location colon.location⟩
    return .expression
      (.function (some .choice) [condition, ifTrue, ifFalse] (some name) location {})
  | "comparison-expression", [.expression left, .word operator, .expression right] =>
    let location := span left.location right.location
    return .expression
      (binary (operatorOf? (textOf operator)) operator left right location none)
  | "comparison-expression", [.expression first, tails] =>
    return .expression (comparisonChain first tails.tails)
  | _, [.expression e] => return .expression e
  | "negation-expression", [.word operator, .expression e] =>
    let start := (operator.location.getD .unknown).start
    let before : Option Location := some ⟨start, start, false, false⟩
    let left : Expression := .constant ⟨some (.int 0), before⟩ { location := before }
    return .expression (binary (operatorOf? (textOf operator)) operator left e
      (span operator.location e.location) none)
  | "bottom-expression", [.token _, .expression e, .token _] => return .expression e
  | "bottom-expression", [.word function, .token _, arguments, .token close] =>
    return .expression
      (.function (functionOf? (textOf function)) arguments.expressions (some function)
        (span function.location close.location) {})
  | "bottom-expression", [.number n] => return .expression (.constant n {})
  | "bottom-expression", [.reference r] => return .reference r
  | "bottom-expression", [.boolean b] => return .expression (.booleanConstant b {})
  | _, [.expression first, tails] => return .expression (leftChain first tails.tails)
  | _, _ => misfit

def plainMeaning (last : Option Char) (lhs : String) (parts : List Value) : MeaningM Value :=
  match last, parts with
  | some '*', [] | some '?', [] => return .list [] none
  | some '*', [head, tail] | some '+', [head, tail] => return .list (head :: tail.elements) none
  | some '?', [part] => return .list [part] none
  | _, [.token t] => return .word { text := some t.text }
  | _, _ => expressionMeaning lhs parts

def meaning (p : LR.Production) (parts : List Value) : MeaningM Value :=
  match p.lhs, parts with
  | "module", [_, documentation, imports, attributes, types] =>
    return .whole (moduleOf documentation.documentationLines imports.imports attributes.attributes
      types.typeDefinitions)
  | "import-line", [_, .string file, _, .word name, _, _] =>
    return .imported { fileName := some file, localName := some name }
  | "doc-line", [doc, _, _] => return doc
  | "doc", [.token t] => return .documentation { text := some (documentationText t.text) }
  | "attribute-line", [line, _, _] => return line
  | "attribute", [_, context, default, .word name, _, .attributeValue value, _] =>
    return .attribute
      { name := some name
        value := some value
        isDefault := some (!default.elements.isEmpty)
        backEnd := context.word? }
  | "attribute-context", [_, name, _] => return name
  | "attribute-value", [.expression e] => return .attributeValue (.expression e none)
  | "attribute-value", [.string s] => return .attributeValue (.string s none)
  | "boolean-constant", [.token t] => return .boolean { value := some (t.text == "true") }
  | "string-constant", [.token t] => return .string { text := some (stringText t.text) }
  | "numeric-constant", [.token t] => return .number { value := some (.int (numberValue t.text)) }
  | "comma-then-expression", [_, e] => return e
  | "argument-list", [head, tail] => return .list (head :: tail.elements) tail.location
  | "argument-list", [] => return .list [] none
  | "bottom-expression", [.reference r] =>
    match p.rhs with
    | ["constant-reference"] => return .expression (.constantReference r {})
    | _ => return .expression (.builtinReference r {})
  | "field-reference", [.reference head, tails] => do
    let location ← Location.merge [head.location, tails.location]
    return .expression (.fieldReference ⟨head :: tails.references, location⟩ {})
  | "field-reference-tail", [_, reference] => return reference
  | "greater-expression-right-list", [first, middle, last]
  | "less-expression-right-list", [first, middle, last] =>
    return .list (first.elements ++ middle :: last.elements) none
  | "equality-or-greater-expression-right", [tail]
  | "equality-or-less-expression-right", [tail] => return tail
  | "and-expression-right", [.word operator, .expression right]
  | "or-expression-right", [.word operator, .expression right]
  | "additive-expression-right", [.word operator, .expression right]
  | "equality-expression-right", [.word operator, .expression right]
  | "greater-expression-right", [.word operator, .expression right]
  | "less-expression-right", [.word operator, .expression right]
  | "times-expression-right", [.word operator, .expression right] =>
    return .tail operator right none
  | "type-definition", [definition] => return definition
  | "struct", [keyword, .name name, parameters, _, _, _, .typeDefinition body]
  | "bits", [keyword, .name name, parameters, _, _, _, .typeDefinition body] => do
    let location ← Location.merge [keyword.location, body.location]
    return .typeDefinition
      { body with
        body := placeBody location body.body
        name := some name
        parameters := (parameters.elements.head?.map Value.parameters).getD [] }
  | "delimited-parameter-definition-list", [_, parameters, _] => return parameters
  | "parameter-definition", [.name name, _, .type type] =>
    return .parameter { name := some name, physicalType := some type }
  | "parameter-definition-list-tail", [_, parameter] => return parameter
  | "parameter-definition-list", [head, tail] =>
    return .list (head :: tail.elements) tail.location
  | "parameter-definition-list", [] => return .list [] none
  | "struct-body", [_, documentation, attributes, types, fields, _] =>
    return .typeDefinition (structureBody documentation.documentationLines attributes.attributes
      types.typeDefinitions fields.fields .byte)
  | "bits-body", [_, documentation, attributes, types, fields, _] =>
    return .typeDefinition (structureBody documentation.documentationLines attributes.attributes
      types.typeDefinitions fields.fields .bit)
  | "anonymous-bits-body", [_, attributes, fields, _] =>
    return .typeDefinition (structureBody [] attributes.attributes [] fields.fields .bit)
  | "struct-field-block", [] | "bits-field-block", [] | "anonymous-bits-field-block", [] =>
    return .list [] none
  | "struct-field-block", [.list block _, rest]
  | "bits-field-block", [.list block _, rest]
  | "anonymous-bits-field-block", [.list block _, rest] =>
    return .list (block ++ rest.elements) none
  | "struct-field-block", [.field f subtypes location, rest]
  | "bits-field-block", [.field f subtypes location, rest]
  | "anonymous-bits-field-block", [.field f subtypes location, rest] =>
    let condition : Expression :=
      .booleanConstant ⟨some true, location⟩ { location := location }
    return .list
      (.field { f with existenceCondition := some condition } subtypes location :: rest.elements)
      none
  | "unconditional-struct-field", [field]
  | "unconditional-anonymous-bits-field", [field]
  | "unconditional-bits-field", [field] => return field
  | "conditional-struct-field-block", [_, .expression condition, _, _, _, _, fields, _]
  | "conditional-bits-field-block", [_, .expression condition, _, _, _, _, fields, _]
  | "conditional-anonymous-bits-field-block", [_, .expression condition, _, _, _, _, fields, _] =>
    let elsewhere := condition.withLocation (condition.location.map Location.disjoint)
    return .list
      (fields.elements.map fun
        | .field f subtypes l =>
          .field { f with existenceCondition := some elsewhere } subtypes l
        | other => other)
      fields.location
  | "field", [.placement placement, .type type, .name name, abbreviation, attributes,
      documentation, _, newline, body] => do
    let (moreDocumentation, moreAttributes) := body.bodyParts
    let location ← Location.merge [placement.location, newline.location, body.location]
    return .field
      { placement := some placement
        type := some type
        name := some name
        abbreviation := abbreviation.word?
        attributes := attributes.attributes ++ moreAttributes
        documentation := documentation.documentationLines ++ moreDocumentation
        location := location }
      [] none
  | "virtual-field", [keyword, .name name, _, .expression value, _, newline, body] => do
    let (documentation, attributes) := body.bodyParts
    let location ← Location.merge [keyword.location, newline.location, body.location]
    return .field
      { readTransform := some value
        name := some name
        attributes := attributes
        documentation := documentation
        location := location }
      [] none
  | "inline-enum-field-definition",
      [.placement placement, _, .name name, abbreviation, _, _, _, .typeDefinition body]
  | "inline-struct-field-definition",
      [.placement placement, _, .name name, abbreviation, _, _, _, .typeDefinition body]
  | "inline-bits-field-definition",
      [.placement placement, _, .name name, abbreviation, _, _, _, .typeDefinition body] =>
    inlineField placement name abbreviation.word? body
  | "anonymous-bits-field-definition",
      [.placement placement, keyword, _, _, _, .typeDefinition body] => do
    let text ← nextAnonymousName
    let name : NameDefinition :=
      { name := some ⟨some text, keyword.location⟩
        isAnonymous := some true
        location := keyword.location }
    inlineField placement name none body
  | "field-body", [_, documentation, attributes, _]
  | "enum-value-body", [_, documentation, attributes, _] =>
    return .body documentation.documentationLines attributes.attributes none
  | "abbreviation", [_, word, _] => return word
  | "enum", [keyword, .name name, _, _, _, .typeDefinition body] => do
    let location ← Location.merge [keyword.location, body.location]
    return .typeDefinition { body with body := placeBody location body.body, name := some name }
  | "enum-body", [_, documentation, attributes, values, _] =>
    return .typeDefinition
      { body := .enumeration { values := values.enumValues }
        documentation := documentation.documentationLines
        attributes := attributes.attributes
        unit := some .bit }
  | "enum-value", [.name name, _, .expression value, attributes, documentation, _, _, body] =>
    let (moreDocumentation, moreAttributes) := body.bodyParts
    return .enumValue
      { name := some name
        value := some value
        documentation := documentation.documentationLines ++ moreDocumentation
        attributes := attributes.attributes ++ moreAttributes }
  | "external", [_, .name name, _, _, _, .typeDefinition body] =>
    return .typeDefinition { body with name := some name }
  | "external-body", [indent, documentation, attributes, dedent] =>
    return .typeDefinition
      { body := .external ⟨span indent.location dedent.location⟩
        documentation := documentation.documentationLines
        attributes := attributes.attributes }
  | "field-location", [.expression start, _, _, .expression size, _] =>
    return .placement { start := some start, size := some size }
  | "delimited-argument-list", [_, arguments, _] => return arguments
  | "type", [.reference reference, arguments, size, lengths] =>
    return .type (typeOf reference arguments size lengths)
  | "type-size-specifier", [_, .number n] => return .expression (.constant n {})
  | "type-name", [.word word] | "snake-name", [.word word] | "constant-name", [.word word] =>
    return .name { name := some word }
  | "type-reference", [.reference reference] | "constant-reference", [.reference reference] =>
    return .reference reference
  | "constant-reference-tail", [.word word]
  | "type-reference-tail", [.word word]
  | "snake-reference", [.word word] => return .reference { sourceName := [word] }
  | "builtin-reference", [.word word] =>
    return .reference
      { sourceName := [word], canonicalName := some { path := [textOf word] } }
  | "constant-reference", [.reference head, _, .reference tail] =>
    return .reference { tail with sourceName := head.sourceName ++ tail.sourceName }
  | "constant-reference-tail", [.word word, _, .reference tail]
  | "type-reference-tail", [.word word, _, .reference tail]
  | "type-reference", [.word word, _, .reference tail] =>
    return .reference { tail with sourceName := word :: tail.sourceName }
  | "array-length-specifier", [_, length, _] => return length
  | "array-length-specifier", [_, _] => return .blank {}
  | "eol", [newline, _] => return newline
  | "comment-line", [_, newline] => return newline
  | lhs, parts => plainMeaning lhs.toList.getLast? lhs parts

def meaningHandlers : LR.Handlers MeaningM Value where
  token t := pure (.token t)
  production p tree parts := do return (← meaning p parts).settle tree.location

/-- The meaning of a parse tree and the productions in it, when so many unnamed fields have got a
name before. -/
def meaningAndRules (tree : LR.Tree) (named : Nat) :
    Checked ((Value × List LR.Production) × Nat) :=
  (tree.transform meaningHandlers []).run named

def meaningOf (tree : LR.Tree) (named : Nat) : Checked (Value × Nat) := do
  let ((value, _), named) ← meaningAndRules tree named
  return (value, named)

end BinaryLayout.Language
