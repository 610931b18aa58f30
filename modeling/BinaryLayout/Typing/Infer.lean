import BinaryLayout.Typing.Basic

/-!
# Inferring types

Every expression gets a type from its parts.  A reference to a virtual field takes the type of
the expression of that field, which is inferred first if need be.  Where the parts do not fit the
operator an error is reported.
-/

namespace BinaryLayout.Typing

open IR

def complain (origin : Origin) (location : Option Location) (text : String) : TypingM Unit :=
  report (.make .error origin location text)

def callName (name : Option Word) : Checked String := do
  return (← requiredText name).getD "None"

/-- The arguments that an operator or function takes. -/
inductive ArgumentKind where
  | integer
  | boolean
  | field
deriving DecidableEq

/-- What an operator or function takes and gives. -/
structure Signature where
  result : ExpressionType
  arguments : ArgumentKind
  minimum : Nat
  maximum : Option Nat
  isOperator : Bool

def signature? : Operator → Option Signature
  | .addition | .subtraction | .multiplication =>
    some ⟨.integer {}, .integer, 2, some 2, true⟩
  | .and | .or => some ⟨.boolean {}, .boolean, 2, some 2, true⟩
  | .maximum => some ⟨.integer {}, .integer, 1, none, false⟩
  | .presence => some ⟨.boolean {}, .field, 1, some 1, false⟩
  | .upperBound | .lowerBound => some ⟨.integer {}, .integer, 1, some 1, false⟩
  | _ => none

def argumentNames (s : Signature) (count : Nat) : List String :=
  if s.isOperator then ["Left argument", "Right argument"]
  else (List.range count).map fun (n : Nat) => "Argument " ++ Text.decimal n

def checkSort (origin : Origin) (e : Expression) (sort : TypeSort) (sortName name : String) :
    TypingM Unit := do
  if sort? e ≠ some sort then
    complain origin e.location (name ++ " must be " ++ sortName ++ ".")

def checkInteger (origin : Origin) (e : Expression) (name : String) : TypingM Unit :=
  checkSort origin e .integer "an integer" name

def checkBoolean (origin : Origin) (e : Expression) (name : String) : TypingM Unit :=
  checkSort origin e .boolean "a boolean" name

def checkField (origin : Origin) (e : Expression) (name : String) : TypingM Unit :=
  match e with
  | .fieldReference _ _ => return
  | _ => complain origin e.location (name ++ " must be a field.")

def checkArgument (origin : Origin) (kind : ArgumentKind) (e : Expression) (name : String) :
    TypingM Unit :=
  match kind with
  | .integer => checkInteger origin e name
  | .boolean => checkBoolean origin e name
  | .field => checkField origin e name

/-- The text of the error about a wrong number of arguments. -/
def wrongCount (s : Signature) (name : String) (limit : Nat) (other : String) : String :=
  (if s.isOperator then "Operator" else "Function") ++ " '" ++ name ++ "' requires " ++
    (if s.maximum = some s.minimum then "exactly" else other) ++ " " ++ Text.decimal limit ++
    " argument" ++ (if limit > 1 then "s" else "") ++ "."

def inferCall (origin : Origin) (location : Option Location) (operator : Option Operator)
    (args : List Expression) (name : Option Word) : TypingM (Option ExpressionType) := do
  match operator.bind signature? with
  | none => throw .noEntry
  | some s =>
    let kind := if s.isOperator then "operator" else "function"
    for (argument, label) in args.zip (argumentNames s args.length) do
      checkArgument origin s.arguments argument
        (label ++ " of " ++ kind ++ " '" ++ (← callName name) ++ "'")
    if args.length < s.minimum then
      complain origin location (wrongCount s (← callName name) s.minimum "at least")
    if let some maximum := s.maximum then
      if args.length > maximum then
        complain origin location (wrongCount s (← callName name) maximum "at most")
    return some s.result

def isEquality : Operator → Bool
  | .equality | .inequality => true
  | _ => false

def isComparison : Operator → Bool
  | .equality | .inequality | .less | .lessOrEqual | .greater | .greaterOrEqual => true
  | _ => false

/-- The first of two arguments that cannot be compared, with its name. -/
def incomparable (operator : Operator) (left right : Expression) :
    Checked (Option (Expression × String)) := do
  let accepted (s : Option TypeSort) : Bool :=
    s == some .integer || s == some .enumeration || (isEquality operator && s == some .boolean)
  if !accepted (← sortOfTyped left) then return some (left, "Left")
  if !accepted (← sortOfTyped right) then return some (right, "Right")
  return none

def inferComparison (origin : Origin) (location : Option Location) (operator : Operator)
    (args : List Expression) (name : Option Word) : TypingM (Option ExpressionType) := do
  let left ← Failure.element args 0
  let right ← Failure.element args 1
  match ← incomparable operator left right with
  | some (argument, side) =>
    let accepted :=
      if isEquality operator then "an integer, boolean, or enum" else "an integer or enum"
    complain origin argument.location
      (side ++ " argument of operator '" ++ (← callName name) ++ "' must be " ++ accepted ++ ".")
    return none
  | none =>
    if !(← compatible (← Failure.require left.type) (← Failure.require right.type)) then
      complain origin location
        ("Both arguments of operator '" ++ (← callName name) ++ "' must have the same type.")
    return some (.boolean {})

def inferChoice (origin : Origin) (location : Option Location) (args : List Expression) :
    TypingM (Option ExpressionType) := do
  let condition ← Failure.element args 0
  if (← sortOfTyped condition) ≠ some .boolean then
    complain origin condition.location "Condition of operator '?:' must be a boolean."
  let ifTrue ← Failure.element args 1
  let sort ← sortOfTyped ifTrue
  if sort == none || sort == some .compound then
    complain origin ifTrue.location
      "If-true clause of operator '?:' must be an integer, boolean, or enum."
    return none
  let ifFalse ← Failure.element args 2
  let type ← Failure.require ifTrue.type
  if !(← compatible type (← Failure.require ifFalse.type)) then
    complain origin location
      "The if-true and if-false clauses of operator '?:' must have the same type."
  match type with
  | .integer _ => return some (.integer {})
  | .boolean _ => return some (.boolean {})
  | .enumeration known =>
    return some (.enumeration { name := some (← Failure.require known.name) })
  | _ => throw .invariant

def inferFunction (origin : Origin) (location : Option Location) (operator : Option Operator)
    (args : List Expression) (name : Option Word) : TypingM (Option ExpressionType) :=
  match operator with
  | some .choice => inferChoice origin location args
  | some operator =>
    if isComparison operator then inferComparison origin location operator args name
    else inferCall origin location (some operator) args name
  | none => inferCall origin location none args name

def inferBuiltin (r : Reference) : Checked ExpressionType := do
  match ← Failure.element (← Failure.require r.canonicalName).path 0 with
  | "$is_statically_sized" => return .boolean {}
  | "$static_size_in_bits" => return .integer {}
  | _ => throw .invariant

/-- The type of a value of an enumeration: the enumeration is what the value is named in. -/
def enumTypeOf (r : Reference) : ExpressionType :=
  let name := r.canonicalName.map fun n => { n with path := n.path.dropLast }
  .enumeration { name := some { r with canonicalName := name } }

/-- Where the type of a reference comes from. -/
inductive TypeSource where
  | known (t : ExpressionType)
  | virtualField (address : Address)

/-- Where the type of a reference to something fixed comes from.  There is none, and an error is
reported, if it is a physical field. -/
def constantSource (origin : Origin) (location : Option Location) (r : Reference)
    (name : CanonicalName) (found : Found) : TypingM (Option TypeSource) :=
  match found.object with
  | .enumValue _ => return some (.known (enumTypeOf r))
  | .field f => do
    if f.isVirtual then return some (.virtualField found.address)
    reportGroup
      [.make .error origin location "Static references to physical fields are not allowed.",
        .note name.file f.location (name.path.getLastD "" ++ " is a physical field.")]
    return none
  | _ => throw .invariant

def fieldSource (found : Found) : TypingM TypeSource :=
  match found.object with
  | .parameter p => do
    let atom ← Failure.require (← Failure.require p.physicalType).atom?
    return .known (← valueTypeAt (← get) atom.reference)
  | .field f => do
    if f.isVirtual then return .virtualField found.address
    match (← Failure.require f.type).atom? with
    | none => return .known .compound
    | some atom => return .known (← valueTypeAt (← get) atom.reference)
  | _ => throw .unset

def readAddress (field : Address) : Address :=
  field ++ [⟨"read_transform", 0⟩]

def expressionAt (address : Address) : TypingM Expression := do
  Failure.entry (((← get).at? address).bind Node.expression?)

def throughReference (r : Reference) : Origin :=
  .reference (r.sourceName.map fun w => w.text.getD "") r.toDatum.debugText

mutual

/-- An expression with its type, and those of its parts.  One that has a type already is left
alone.  The depth bounds the chains of virtual fields. -/
def infer (depth : Nat) (origin : Origin) (e : Expression) : TypingM Expression := do
  if (sort? e).isSome then return e
  match e with
  | .unset _ => throw .invariant
  | .constant _ _ => return e.withType (some (.integer {}))
  | .booleanConstant _ _ => return e.withType (some (.boolean {}))
  | .builtinReference r _ => return e.withType (some (← inferBuiltin r))
  | .function operator args name callLocation note =>
    let args ← inferAll depth origin args
    match ← inferFunction origin note.location operator args name with
    | some t => return .function operator args name callLocation { note with type := some t }
    | none => return .function operator args name callLocation note
  | .constantReference r note =>
    match r.canonicalName with
    | none => throw (if (← get).modules.isEmpty then .invariant else .illTyped)
    | some name =>
      let found ← (← get).find name
      match ← constantSource origin note.location r name found with
      | none => return e
      | some source => return e.withType (some (← inferSource depth (.file name.file) source))
  | .fieldReference r _ =>
    let target ← Failure.lastOf r.path
    let head ← Failure.element r.path 0
    let found ← (← get).resolve target
    let source ← fieldSource found
    return e.withType (some (← inferSource depth (throughReference head) source))
termination_by (depth, 1, sizeOf e)

def inferAll (depth : Nat) (origin : Origin) (list : List Expression) :
    TypingM (List Expression) := do
  match list with
  | [] => return []
  | e :: rest =>
    let first ← infer depth origin e
    return first :: (← inferAll depth origin rest)
termination_by (depth, 1, sizeOf list)

/-- The type of a reference; that of a virtual field is inferred where the field stands.  If the
field has none because of an error, the reference has one of no sort. -/
def inferSource (depth : Nat) (origin : Origin) (source : TypeSource) :
    TypingM ExpressionType := do
  match depth, source with
  | _, .known t => return t
  | 0, .virtualField _ => throw .exhausted
  | depth + 1, .virtualField field =>
    let address := readAddress field
    let typed ← infer depth origin (← expressionAt address)
    modify fun p => p.put address (.expression typed)
    return typed.type.getD .unset
termination_by (depth, 0, 0)

end

def inferExpressions (depth : Nat) : TypingM Unit := do
  for v in (← get).visits [.expression] [.expression] do
    let typed ← infer depth (.file v.file) (← expressionAt v.address)
    modify fun p => p.put v.address (.expression typed)

def inferParameter (file : String) (q : RuntimeParameter) : TypingM RuntimeParameter := do
  let physical ← Failure.require q.physicalType
  match physical.atom? with
  | none =>
    report (.error file physical.location "Parameters cannot be arrays.")
    return q
  | some atom => return { q with type := some (← valueTypeAt (← get) atom.reference) }

def inferParameters : TypingM Unit := do
  for (v, q) in (← get).partsOf Node.parameter? [.runtimeParameter] do
    let typed ← inferParameter v.file q
    modify fun p => p.put v.address (.parameter typed)

def chainDepth (p : Program) : Nat :=
  (p.visits [.field]).length + 1

def annotateTypes (p : Program) : Checked (Program × List MessageGroup) := do
  let work : TypingM Unit := do
    inferExpressions (chainDepth p)
    inferParameters
  let (((), p), groups) ← (work.run p).run []
  return (p, groups)

end BinaryLayout.Typing
