import BinaryLayout.Proofs.Attributes.Verified
import BinaryLayout.Proofs.Constraint.Accepted

/-!
# Sizes of physical types

A type is used for a field or for the elements of an array in a field.  Its size there is the one
that is written with it, or else the fixed size of the type, or else the size of the field, if the
bounds of the field leave one.  Main statement: in an accepted program this size is known for every
built-in type and every enumeration, and it is one that the type can have.
-/

namespace BinaryLayout.Constraint

open IR Checked List

variable {p q : Program} {file : String} {t d : TypeDefinition} {f : Field} {atom : AtomicType}
  {written : Option Expression} {location place : Option Location} {size : Option Int}
  {e a b : Expression} {passes : Int → Bool} {type part : TypeSpec} {operator : Operator}
  {word : Option Word} {note : Annotation} {bindings : Bindings}

/-! ## Tests of sizes -/

/-- A number or the word for the size of a type, and its value at a size. -/
inductive Operand : Expression → (Int → Int) → Prop
  | number {n : NumericConstant} {k : Int} {note : Annotation} (value : n.toInt = .ok k) :
      Operand (.constant n note) fun _ => k
  | size {r : Reference} {note : Annotation} (isWord : r.IsWord "$static_size_in_bits") :
      Operand (.builtinReference r note) id

/-- A test of the size of a type, and whether a size passes it. -/
inductive Tests : Expression → (Int → Bool) → Prop
  | compare {operator : Operator} {holds : Int → Int → Bool} {a b : Expression}
      {left right : Int → Int} {word : Option Word} {location : Option Location}
      {note : Annotation} (compares : operator.binary? = some fun m n => .bool (holds m n))
      (first : Operand a left) (second : Operand b right) :
      Tests (.function (some operator) [a, b] word location note) fun n => holds (left n) (right n)
  | both {a b : Expression} {left right : Int → Bool} {word : Option Word}
      {location : Option Location} {note : Annotation} (first : Tests a left)
      (second : Tests b right) :
      Tests (.function (some .and) [a, b] word location note) fun n => left n && right n
  | either {a b : Expression} {left right : Int → Bool} {word : Option Word}
      {location : Option Location} {note : Annotation} (first : Tests a left)
      (second : Tests b right) :
      Tests (.function (some .or) [a, b] word location note) fun n => left n || right n

/-- What a type asks for that has to have a size, and one that passes a test. -/
inductive Asks (passes : Int → Bool) : Expression → Prop
  | static {r : Reference} {test : Expression} {word : Option Word} {location : Option Location}
      {inner note : Annotation} (isWord : r.IsWord "$is_statically_sized")
      (tests : Tests test passes) :
      Asks passes (.function (some .and) [.builtinReference r inner, test] word location note)

theorem constant?_pair {x y : Option Constant} (left : a.constant? bindings = .ok x)
    (right : b.constant? bindings = .ok y) :
    (Expression.function (some operator) [a, b] word location note).constant? bindings =
      operator.constant? [x, y] := by
  simp only [Expression.constant?, Expression.constantsOf, left, right]
  rfl

theorem constant?_word {r : Reference} {text : String} (isWord : r.IsWord text) :
    (Expression.builtinReference r note).constant? bindings = .ok (bindings.lookup text) := by
  rcases isWord with ⟨name, named, first⟩
  simp only [Expression.constant?, named, Option.getD_some, Failure.element_eq_ok.2 first]
  rfl

theorem Operand.constant?_eq {value : Int → Int} (operand : Operand e value) (n : Int) :
    e.constant? (sizeBindings (some n)) = .ok (some (.int (value n))) := by
  cases operand with
  | number value =>
    rw [Expression.constant?, value]
    rfl
  | size isWord => exact constant?_word isWord

theorem Tests.constant?_eq (tests : Tests e passes) (n : Int) :
    e.constant? (sizeBindings (some n)) = .ok (some (.bool (passes n))) := by
  induction tests with
  | @compare operator holds _ _ left right _ _ _ compares first second =>
    have value := congrArg (Option.map fun compared => compared (left n) (right n)) compares
    rw [constant?_pair (first.constant?_eq n) (second.constant?_eq n)]
    cases operator <;> first | cases value | exact congrArg Except.ok value
  | @both _ _ left right _ _ _ _ _ first second =>
    rw [constant?_pair first second]
    beta_reduce
    cases left n <;> cases right n <;> rfl
  | @either _ _ left right _ _ _ _ _ first second =>
    rw [constant?_pair first second]
    beta_reduce
    cases left n <;> cases right n <;> rfl

theorem Asks.exists_size {c : Constant} (asks : Asks passes e)
    (run : e.constant? (sizeBindings size) = .ok (some c)) (isTrue : c.isTrue = true) :
    ∃ n, size = some n ∧ passes n = true := by
  rcases asks with ⟨isWord, tests⟩
  cases size with
  | none =>
    -- `$is_statically_sized` is false, whatever the value of the test.
    rcases bind_eq_ok.1 run with ⟨_, values, run⟩
    rcases bind_eq_ok.1 values with ⟨_, first, values⟩
    rcases bind_eq_ok.1 values with ⟨_, _, ends⟩
    cases ends
    cases (constant?_word isWord).symm.trans first
    cases run
    cases isTrue
  | some n =>
    rw [constant?_pair (constant?_word isWord) (tests.constant?_eq n)] at run
    cases passed : passes n with
    | true => exact ⟨n, rfl, passed⟩
    | false =>
      rw [passed] at run
      cases run
      cases isTrue

/-! ## What a type asks for -/

/-- A type has what it asks for at a size. -/
structure Meets (d : TypeDefinition) (size : Option Int) : Prop where
  enumeration : ∀ e, d.body = .enumeration e → ∃ n limit, size = some n ∧
    integerAttribute? d.attributes "maximum_bits" = .ok (some limit) ∧ 1 ≤ n ∧ n ≤ limit.toInt
  required : ∀ value e, attribute? d.attributes "static_requirements" = .ok (some value) →
    value.expression? = some e →
      ∃ c, e.constant? (sizeBindings size) = .ok (some c) ∧ c.isTrue = true

theorem enumErrors_eq_nil (run : enumErrors p file atom written location d size = .ok []) :
    ∃ n limit, size = some n ∧ integerAttribute? d.attributes "maximum_bits" = .ok (some limit) ∧
      1 ≤ n ∧ n ≤ limit.toInt := by
  cases size with
  | none =>
    rcases bind_eq_ok.1 run with ⟨_, _, ends⟩
    cases ends
  | some n =>
    rcases bind_eq_ok.1 run with ⟨limit, isLimit, run⟩
    dsimp only at run
    split at run
    · rcases bind_eq_ok.1 run with ⟨_, isTooLarge, run⟩
      cases isTooLarge
      rcases bind_eq_ok.1 run with ⟨_, _, ends⟩
      cases ends
    · rename_i large
      cases limit with
      | none => cases run
      | some limit =>
        rcases bind_eq_ok.1 run with ⟨_, isTooLarge, run⟩
        cases isTooLarge
        split at run
        · rename_i below
          have below : ¬ n > limit.toInt := by simpa using below
          exact ⟨n, limit, rfl, isLimit, by omega, by omega⟩
        · rcases bind_eq_ok.1 run with ⟨_, _, ends⟩
          cases ends

theorem staticErrors_eq_nil {attributes : List Attribute} {value : AttributeValue}
    (run : staticErrors file atom attributes place size = .ok [])
    (asks : attribute? attributes "static_requirements" = .ok (some value))
    (isExpression : value.expression? = some e) :
    ∃ c, e.constant? (sizeBindings size) = .ok (some c) ∧ c.isTrue = true := by
  rcases bind_eq_ok.1 run with ⟨_, again, run⟩
  cases asks.symm.trans again
  simp only [isExpression] at run
  rcases bind_eq_ok.1 run with ⟨met, isMet, run⟩
  split at run
  · rename_i isTrue
    cases met with
    | none => cases isTrue
    | some c => exact ⟨c, isMet, isTrue⟩
  · simp only [bind_eq_ok] at run
    rcases run with ⟨_, _, _, _, _, _, ends⟩
    cases ends

theorem meets_of_requirementErrors (names : definitionAt p atom.reference = .ok d)
    (run : requirementErrors p file (.atomic atom written location) place size = .ok []) :
    Meets d size := by
  rcases bind_eq_ok.1 names with ⟨⟨_, object⟩, resolved, isDefinition⟩
  cases object <;> cases isDefinition
  simp only [requirementErrors, TypeSpec.atom?, Failure.require_some, bind_eq_ok] at run
  rcases run with ⟨_, same, _, again, run⟩
  cases same
  cases resolved.symm.trans again
  cases isBody : d.body with
  | enumeration =>
    simp only [isBody, bind_eq_ok] at run
    rcases run with ⟨errors, enumRun, run⟩
    cases errors with
    | nil => exact ⟨fun _ _ => enumErrors_eq_nil enumRun, fun _ _ => staticErrors_eq_nil run⟩
    | cons => cases run
  | _ =>
    simp only [isBody] at run
    refine ⟨fun _ impossible => ?_, fun _ _ => staticErrors_eq_nil run⟩
    cases isBody.symm.trans impossible

/-! ## Uses of types -/

/-- The size of a type where it is used for a field, or for the elements of an array in it. -/
def sizeOfUse (t : TypeDefinition) (f : Field) (d : TypeDefinition) (written : Option Expression) :
    Checked (Option Int) := do
  let sizes ← match ← Failure.require f.type with
    | .atomic _ _ _ => some <$> fieldSizes t f
    | _ => pure none
  let element ← numberOf written
  let fixed ← attributeSize (← attribute? d.attributes "fixed_size_in_bits")
  return sizeInField (element.or fixed) sizes

theorem meets_of_fieldErrors (run : fieldErrors p file t f atom written location = .ok []) :
    ∃ d size, definitionAt p atom.reference = .ok d ∧ sizeOfUse t f d written = .ok size ∧
      Meets d size := by
  rcases bind_eq_ok.1 run with ⟨type, isType, run⟩
  cases type
  all_goals
    -- The two checks before that of the requirements would end with their errors.
    dsimp only at run
    rcases bind_eq_ok.1 run with ⟨_, isSizes, run⟩
    rcases bind_eq_ok.1 run with ⟨_, isElement, run⟩
    rcases bind_eq_ok.1 run with ⟨d, names, run⟩
    rcases bind_eq_ok.1 run with ⟨_, _, run⟩
    rcases bind_eq_ok.1 run with ⟨_, isValue, run⟩
    rcases bind_eq_ok.1 run with ⟨_, isFixed, run⟩
    rcases bind_eq_ok.1 run with ⟨_ | _, _, run⟩
    · rcases bind_eq_ok.1 run with ⟨_ | _, _, run⟩
      · refine ⟨d, _, names, ?_, meets_of_requirementErrors names run⟩
        exact bind_eq_ok.2 ⟨_, isType, bind_eq_ok.2 ⟨_, isSizes, bind_eq_ok.2 ⟨_, isElement,
          bind_eq_ok.2 ⟨_, isValue, bind_eq_ok.2 ⟨_, isFixed, rfl⟩⟩⟩⟩⟩
      · cases run
    · cases run

theorem fieldErrors_of_silent
    (silent : Silent (checkFieldType p file t f (.atomic atom written location))) :
    fieldErrors p file t f atom written location = .ok [] := by
  rcases run_lift_bind_eq_ok.1 silent with ⟨_, errors, run⟩
  rcases run_bind_eq_ok.1 run with ⟨_, _, reported, ends⟩
  cases ends
  cases eq_nil_of_silent_report reported
  exact errors

/-! ## Fields and elements -/

/-- A type that is used in another one: the type itself, or that of the elements of an array. -/
inductive Within : TypeSpec → TypeSpec → Prop
  | whole {type : TypeSpec} : Within type type
  | element {base part : TypeSpec} {count : ArraySize} {place location : Option Location}
      {written : Option Expression} (inner : Within base part) :
      Within (.array (some base) count place written location) part

theorem Within.exists_visit {n : Node} {a : Address} {v : Visit} (within : Within type part)
    (there : n.visitAt [] [] a = some v) (isType : v.node = .type type) :
    ∃ b w, n.visitAt [] [] b = some w ∧ w.node = .type part ∧ v.ancestors <:+ w.ancestors ∧
      w.typeDefinition? = v.typeDefinition? ∧ w.field? = v.field? := by
  induction within generalizing a v with
  | whole => exact ⟨a, v, there, isType, suffix_rfl, rfl, rfl⟩
  | @element base _ count place location written _ ih =>
    rcases v with ⟨_, _, _⟩
    cases isType
    have inArray := Node.visitAt_step there (mem_cons_self ..)
    rcases ih (Node.visitAt_step (s := ⟨"base_type", 0⟩) (c := .type base) inArray
      (mem_append_left _ (mem_singleton_self _))) rfl with
      ⟨b, w, visited, isPart, above, inType, inField⟩
    exact ⟨b, w, visited, isPart, ((suffix_cons ..).trans (suffix_cons ..)).trans above, inType,
      inField⟩

section Fields

variable {address : Address} {s : Structure}

theorem exists_use (there : (Node.program p).inner? address = some (.typeDefinition t))
    (isRecord : t.body = .record s) (member : f ∈ s.fields) (isType : f.type = some type)
    (within : Within type part) :
    ∃ v, (v, part) ∈ p.partsOf Node.type? [.structureBody, .type] ∧
      v.typeDefinition? = some t ∧ v.field? = some f := by
  rcases mem_iff_getElem?.1 member with ⟨i, isField⟩
  rcases Node.exists_visitAt (Node.at?_of_inner? there) [] [] with ⟨⟨_, _, _⟩, visited, isNode⟩
  cases isNode
  have body := Node.visitAt_step visited (mem_record isRecord)
  have field := Node.visitAt_step (s := ⟨"field", i⟩) (c := .field f) body
    (mem_childrenIn_iff.2 ⟨i, f, rfl, isField, rfl⟩)
  have use := Node.visitAt_step (s := ⟨"type", 0⟩) (c := .type type) field
    (by simp [Node.children, mem_childIn_iff, isType])
  rcases within.exists_visit use rfl with ⟨b, w, there, isPart, above, inType, inField⟩
  have inBody : .structureBody ∈ (w.ancestors.map Node.kind).reverse :=
    mem_reverse.2 (mem_map.2 ⟨.structureBody s, above.subset (by simp), rfl⟩)
  have isVisit : w ∈ p.visits ([.structureBody] ++ [.type]) := by
    refine Program.mem_visits.2 ⟨Program.address_of_visitAt there ▸ there, ?_⟩
    exact ⟨by rw [isPart]; rfl, singleton_sublist.2 inBody, fun _ _ => not_mem_nil⟩
  exact ⟨w, mem_filterMap.2 ⟨w, isVisit, by rw [isPart]; rfl⟩, inType, inField⟩

theorem width_of_verify {body : Enumeration} {limit : Constant}
    (verified : Attributes.verify p = .ok [])
    (there : (Node.program p).inner? address = some (.typeDefinition d))
    (isEnum : d.body = .enumeration body)
    (isLimit : integerAttribute? d.attributes "maximum_bits" = .ok (some limit)) :
    limit.toInt ≤ 64 := by
  rcases Node.exists_visitAt (Node.at?_of_inner? there) [] [] with ⟨⟨_, _, _⟩, found, isNode⟩
  cases isNode
  have visited := Program.mem_visits_of_visitAt
    (Node.visitAt_step found (mem_enumeration isEnum)) fun _ _ => not_mem_nil
  rcases (Attributes.agrees_of_verify verified).1 _ visited with ⟨_, _, isType, again, _, fits⟩
  cases isType
  cases isLimit.symm.trans again
  exact fits

/-- The sizes in bits that built-in types can have. -/
def builtInSizes : List (String × (Int → Bool)) :=
  [("UInt", fun n => 1 ≤ n && n ≤ 64), ("Int", fun n => 1 ≤ n && n ≤ 64),
    ("Bcd", fun n => 1 ≤ n && n ≤ 64), ("Flag", fun n => n == 1),
    ("Float", fun n => n == 32 || n == 64)]

/-- The built-in types of a program ask for these sizes. -/
def AsksForSizes (p : Program) : Prop :=
  ∀ x ∈ builtInSizes, ∀ address d, p.find ⟨"", [x.1]⟩ = .ok ⟨address, .definition d⟩ →
    ∃ value e, attribute? d.attributes "static_requirements" = .ok (some value) ∧
      value.expression? = some e ∧ Asks x.2 e

/-- The size of a type is known and one that the type can have. -/
structure HasLegalSize (atom : AtomicType) (d : TypeDefinition) (size : Option Int) : Prop where
  enumeration : ∀ e, d.body = .enumeration e → ∃ n limit, size = some n ∧
    integerAttribute? d.attributes "maximum_bits" = .ok (some limit) ∧
    1 ≤ n ∧ n ≤ limit.toInt ∧ limit.toInt ≤ 64
  builtIn : ∀ x ∈ builtInSizes, atom.reference.bind (·.canonicalName) = some ⟨"", [x.1]⟩ →
    ∃ n, size = some n ∧ x.2 n = true

end Fields

/-! ## A byte -/

namespace Sample

/-- What a number of one to 64 bits asks of its size. -/
def wholeSizes : Expression :=
  let word (text : String) : Expression :=
    .builtinReference { canonicalName := some ⟨"", [text]⟩ } {}
  let call (operator : Operator) (left right : Expression) : Expression :=
    .function (some operator) [left, right] none none {}
  let size := word "$static_size_in_bits"
  call .and (word "$is_statically_sized")
    (call .and (call .lessOrEqual (knownNumber 1) size) (call .lessOrEqual size (knownNumber 64)))

def wholeNumber : TypeDefinition where
  name := some { name := some { text := some "UInt" } }
  unit := some .bit
  body := .external {}
  attributes := [Attributes.integerAttribute "addressable_unit_size" 1 none,
    Attributes.made "static_requirements" (.expression wholeSizes none) none]

def sizedByte : Field :=
  { byteField with attributes := [Attributes.stringAttribute "byte_order" "Null" none] }

def sizedFrame : TypeDefinition where
  name := some { name := some { text := some "Frame" } }
  unit := some .byte
  body := .record { fields := [sizedByte] }

/-- A structure of one byte, in a program with all attributes. -/
def sized : Program where
  modules :=
    let attributes := [Attributes.stringAttribute "expected_back_ends" "cpp" none]
    [{ fileName := some "sample", attributes, types := [sizedFrame] },
      { fileName := some "", attributes, types := [wholeNumber] }]

theorem verified_sized : Attributes.verify sized = .ok [] := by
  have silent : ((Attributes.verify sized).toOption.map fun groups => groups.length) = some 0 := by
    simp only [Attributes.verify, Attributes.checkBackEnds, Program.partsOf, Program.visits,
      Node.walk_eq_search]
    decide +kernel
  rcases exists_ok_of_length silent with ⟨_, run, rfl⟩
  exact run

theorem accepted_sized : ∃ q, check sized = .ok (q, []) := by
  have silent : ((check sized).toOption.map fun result => result.2.length) = some 0 := by
    simp only [check, Program.partsOf, Program.visits, Node.walk_eq_search]
    rw [forIn_checkName Field.name (areFree_of_all (by decide +kernel)),
      forIn_checkName TypeDefinition.name (areFree_of_all (by decide +kernel))]
    decide +kernel
  rcases exists_ok_of_length silent with ⟨⟨q, _⟩, run, rfl⟩
  exact ⟨q, run⟩

theorem asksForSizes_sized : AsksForSizes sized := by
  have isThere : sized.find ⟨"", ["UInt"]⟩ =
      .ok ⟨[⟨"module", 1⟩, ⟨"type", 0⟩], .definition wholeNumber⟩ := by cbv
  have isMissing : ∀ name ∈ ["Int", "Bcd", "Flag", "Float"],
      (sized.find ⟨"", [name]⟩).toOption.isNone = true := by decide +kernel
  intro x member address d found
  rcases mem_cons.1 member with rfl | other
  · cases isThere.symm.trans found
    refine ⟨_, _, rfl, rfl, .static ⟨_, rfl, rfl⟩ (.both ?_ ?_)⟩
    · exact @Tests.compare .lessOrEqual (fun m n => m ≤ n) _ _ (fun _ => 1) id _ _ _ rfl
        (.number rfl) (.size ⟨_, rfl, rfl⟩)
    · exact @Tests.compare .lessOrEqual (fun m n => m ≤ n) _ _ id (fun _ => 64) _ _ _ rfl
        (.size ⟨_, rfl, rfl⟩) (.number rfl)
  · have missing := isMissing x.1 (mem_map_of_mem other)
    rw [found] at missing
    cases missing

end Sample

end BinaryLayout.Constraint
