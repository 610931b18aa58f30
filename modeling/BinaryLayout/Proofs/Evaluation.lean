import BinaryLayout.IR.Find

/-!
# The value of an expression

An expression has a value once it is known what every physical field holds.  A field is told
apart from others of the same name by the names of the fields around it, so a `Valuation` gives
a value to every `Place`.  A virtual field has the value of its expression, read in the structure
that the field is in, and a name that stands for something fixed has one value everywhere.

`Evaluates` says nothing about the order in which an expression is computed: one false operand
decides a conjunction whatever the other is, and only one side of a choice needs a value.
-/

namespace BinaryLayout.IR

/-- The names of the fields that lead to a place in a structure. -/
abbrev Place := List CanonicalName

/-- What an expression can read. -/
structure Valuation where
  stored : Place → Constant
  /-- The value that is being written to a virtual field. -/
  logicalValue : Constant
  /-- The size of a type, for what the type demands of its uses. -/
  staticSize : Nat
  isStaticallySized : Bool

/-- The value of an operator or function on the values of all its arguments. -/
def Operator.apply : Operator → List Constant → Option Constant
  | .addition, [.int a, .int b] => some (.int (a + b))
  | .subtraction, [.int a, .int b] => some (.int (a - b))
  | .multiplication, [.int a, .int b] => some (.int (a * b))
  | .equality, [.int a, .int b] => some (.bool (decide (a = b)))
  | .equality, [.bool a, .bool b] => some (.bool (decide (a = b)))
  | .inequality, [.int a, .int b] => some (.bool (decide (a ≠ b)))
  | .inequality, [.bool a, .bool b] => some (.bool (decide (a ≠ b)))
  | .less, [.int a, .int b] => some (.bool (decide (a < b)))
  | .lessOrEqual, [.int a, .int b] => some (.bool (decide (a ≤ b)))
  | .greater, [.int a, .int b] => some (.bool (decide (b < a)))
  | .greaterOrEqual, [.int a, .int b] => some (.bool (decide (b ≤ a)))
  | .maximum, .int a :: rest => (greatest a rest).map .int
  | _, _ => none
where
  /-- The largest of some integers. -/
  greatest (best : Int) : List Constant → Option Int
    | [] => some best
    | .int n :: rest => greatest (max best n) rest
    | .bool _ :: _ => none

/-- The expression that a reference to a virtual field stands for. -/
def Object.computed? : Object → Option Expression
  | .field f => if f.isVirtual then f.readTransform else none
  | _ => none

/-- The expression that a name for something fixed stands for. -/
def Object.fixed? : Object → Option Expression
  | .enumValue v => v.value
  | object => object.computed?

/-- Whether an object has a value of its own: a physical field or a parameter. -/
def Object.isStored : Object → Bool
  | .field f => !f.isVirtual
  | .parameter _ => true
  | _ => false

/-- The condition under which a field is there. -/
def Object.condition? : Object → Option Expression
  | .field f => f.existenceCondition
  | _ => none

/-- A reference is to an object with some absolute name. -/
def Reference.Names (p : Program) (r : Reference) (name : CanonicalName) (object : Object) :
    Prop :=
  r.canonicalName = some name ∧ ∃ address, p.find name = .ok ⟨address, object⟩

/-- A reference is to a word of the language. -/
def Reference.IsWord (r : Reference) (word : String) : Prop :=
  ∃ name, r.canonicalName = some name ∧ name.path[0]? = some word

/-- A path of fields leads from one place to another.  A virtual field on the way stands for the
field that it is an alias of. -/
inductive Leads (p : Program) : Place → List Reference → Place → Prop
  | here {place : Place} : Leads p place [] place
  | into {place there : Place} {r : Reference} {rest : List Reference} {name : CanonicalName}
      {object : Object} (named : r.Names p name object) (isStored : object.isStored)
      (onward : Leads p (place ++ [name]) rest there) :
      Leads p place (r :: rest) there
  | through {place middle there : Place} {r : Reference} {rest : List Reference}
      {name : CanonicalName} {object : Object} {target : FieldReference} {note : Annotation}
      (named : r.Names p name object)
      (isAlias : object.computed? = some (.fieldReference target note))
      (aside : Leads p place target.path middle) (onward : Leads p middle rest there) :
      Leads p place (r :: rest) there

/-- The field or parameter at the end of a path, and the place of the structure that it is in. -/
structure FieldReference.Reaches (p : Program) (r : FieldReference) (here there : Place)
    (name : CanonicalName) (object : Object) : Prop where
  leads : Leads p here r.path.dropLast there
  ends : ∃ last, r.path.getLast? = some last ∧ last.Names p name object

/-- An expression has a value at a place. -/
inductive Evaluates (p : Program) (ρ : Valuation) : Place → Expression → Constant → Prop
  | number {here : Place} {n : NumericConstant} {note : Annotation} {numeral : Numeral} {i : Int}
      (written : n.value = some numeral) (denotes : numeral.toInt = .ok i) :
      Evaluates p ρ here (.constant n note) (.int i)
  | truth {here : Place} {b : BooleanConstant} {note : Annotation} {value : Bool}
      (written : b.value = some value) :
      Evaluates p ρ here (.booleanConstant b note) (.bool value)
  | logicalValue {here : Place} {r : Reference} {note : Annotation}
      (isWord : r.IsWord "$logical_value") :
      Evaluates p ρ here (.builtinReference r note) ρ.logicalValue
  | staticSize {here : Place} {r : Reference} {note : Annotation}
      (isWord : r.IsWord "$static_size_in_bits") :
      Evaluates p ρ here (.builtinReference r note) (.int ρ.staticSize)
  | isStaticallySized {here : Place} {r : Reference} {note : Annotation}
      (isWord : r.IsWord "$is_statically_sized") :
      Evaluates p ρ here (.builtinReference r note) (.bool ρ.isStaticallySized)
  | fixed {here there : Place} {r : Reference} {note : Annotation} {name : CanonicalName}
      {object : Object} {e : Expression} {v : Constant} (named : r.Names p name object)
      (isFixed : object.fixed? = some e) (value : Evaluates p ρ there e v) :
      Evaluates p ρ here (.constantReference r note) v
  | stored {here there : Place} {r : FieldReference} {note : Annotation} {name : CanonicalName}
      {object : Object} (reaches : r.Reaches p here there name object)
      (isStored : object.isStored) :
      Evaluates p ρ here (.fieldReference r note) (ρ.stored (there ++ [name]))
  | computed {here there : Place} {r : FieldReference} {note : Annotation} {name : CanonicalName}
      {object : Object} {e : Expression} {v : Constant}
      (reaches : r.Reaches p here there name object) (isComputed : object.computed? = some e)
      (value : Evaluates p ρ there e v) :
      Evaluates p ρ here (.fieldReference r note) v
  | operation {here : Place} {operator : Operator} {args : List Expression} {word : Option Word}
      {location : Option Location} {note : Annotation} {values : List Constant} {v : Constant}
      (sameLength : args.length = values.length)
      (arguments : ∀ pair ∈ args.zip values, Evaluates p ρ here pair.1 pair.2)
      (applied : operator.apply values = some v) :
      Evaluates p ρ here (.function (some operator) args word location note) v
  | allTrue {here : Place} {args : List Expression} {word : Option Word}
      {location : Option Location} {note : Annotation}
      (arguments : ∀ arg ∈ args, Evaluates p ρ here arg (.bool true)) :
      Evaluates p ρ here (.function (some .and) args word location note) (.bool true)
  | oneFalse {here : Place} {args : List Expression} {arg : Expression} {word : Option Word}
      {location : Option Location} {note : Annotation} (member : arg ∈ args)
      (argument : Evaluates p ρ here arg (.bool false)) :
      Evaluates p ρ here (.function (some .and) args word location note) (.bool false)
  | allFalse {here : Place} {args : List Expression} {word : Option Word}
      {location : Option Location} {note : Annotation}
      (arguments : ∀ arg ∈ args, Evaluates p ρ here arg (.bool false)) :
      Evaluates p ρ here (.function (some .or) args word location note) (.bool false)
  | oneTrue {here : Place} {args : List Expression} {arg : Expression} {word : Option Word}
      {location : Option Location} {note : Annotation} (member : arg ∈ args)
      (argument : Evaluates p ρ here arg (.bool true)) :
      Evaluates p ρ here (.function (some .or) args word location note) (.bool true)
  | choice {here : Place} {condition ifTrue ifFalse : Expression} {word : Option Word}
      {location : Option Location} {note : Annotation} {decided : Bool} {v : Constant}
      (decides : Evaluates p ρ here condition (.bool decided))
      (chosen : Evaluates p ρ here (if decided then ifTrue else ifFalse) v) :
      Evaluates p ρ here
        (.function (some .choice) [condition, ifTrue, ifFalse] word location note) v
  | presence {here there : Place} {r : FieldReference} {inner note : Annotation}
      {word : Option Word} {location : Option Location} {name : CanonicalName} {object : Object}
      {condition : Expression} {v : Constant} (reaches : r.Reaches p here there name object)
      (conditional : object.condition? = some condition)
      (value : Evaluates p ρ there condition v) :
      Evaluates p ρ here
        (.function (some .presence) [.fieldReference r inner] word location note) v
  | upperBound {here : Place} {arg : Expression} {word : Option Word}
      {location : Option Location} {note : Annotation} {bounds : IntegerType}
      {numeral : Numeral} {i : Int} (known : arg.type = some (.integer bounds))
      (bounded : bounds.maximum = some numeral) (denotes : numeral.toInt = .ok i) :
      Evaluates p ρ here (.function (some .upperBound) [arg] word location note) (.int i)
  | lowerBound {here : Place} {arg : Expression} {word : Option Word}
      {location : Option Location} {note : Annotation} {bounds : IntegerType}
      {numeral : Numeral} {i : Int} (known : arg.type = some (.integer bounds))
      (bounded : bounds.minimum = some numeral) (denotes : numeral.toInt = .ok i) :
      Evaluates p ρ here (.function (some .lowerBound) [arg] word location note) (.int i)

end BinaryLayout.IR
