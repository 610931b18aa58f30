import BinaryLayout.Cpp.Expression
import BinaryLayout.Proofs.Constraint.Accepted

/-!
# The types of operations in generated code

An operation is computed in a type that is chosen from the ranges of its result and its arguments
together, and the result and each argument have a type of their own.  Main statement: in an
accepted program all these types exist, and they hold every value that can occur.
-/

namespace BinaryLayout.Cpp

open IR Typing Constraint Bounds Checked List

variable {t : IntType} {low high : Int}

/-! ## Types that hold ranges -/

theorem IntType.holds_iff : t.holds low high = true ↔ t.minimum ≤ low ∧ high ≤ t.maximum := by
  simp [holds]

theorem IntType.forRange_of_holds {wide : IntType} (isWide : wide ∈ wideTypes)
    (holds : wide.holds low high = true) :
    ∃ t, forRange low high = some t ∧ t.holds low high = true := by
  have isComputing : wide ∈ computing := by
    rcases mem_pair.1 isWide with rfl | rfl <;> simp [computing]
  cases found : forRange low high with
  | none => exact (find?_eq_none.1 found wide isComputing holds).elim
  | some t => exact ⟨t, rfl, find?_some (p := fun t : IntType => t.holds low high) found⟩

theorem IntType.holds_union {rest : List (Int × Int)} :
    t.holds ((rest.map (·.1)).foldl min low) ((rest.map (·.2)).foldl max high) = true ↔
      ∀ range ∈ (low, high) :: rest, t.holds range.1 range.2 = true := by
  induction rest generalizing low high with
  | nil => simp
  | cons _ _ ih =>
    rw [map_cons, map_cons, foldl_cons, foldl_cons, ih]
    simp only [forall_mem_cons, holds_iff, le_min_iff, max_le_iff]
    tauto

/-! ## The types of one operation -/

/-- A value is one of the values of a type. -/
def ValueType.Has : ValueType → Constant → Prop
  | .integer (some t), .int n => t.minimum ≤ n ∧ n ≤ t.maximum
  | .boolean, .bool _ => True
  | .enumeration _, .int _ => True
  | _, _ => False

/-- A type exists and has all values that an expression can have. -/
structure ValueType.Carries (t : ValueType) (p : Program) (e : Expression) : Prop where
  isThere : t.exists? = true
  values : ∀ ρ here v, Admissible p ρ → Evaluates p ρ here e v → t.Has v

/-- Integers and truth values, which have types whatever else a program contains. -/
def IsPlain (wide : IntType) (e : Expression) : Prop :=
  (∃ bounds, e.type = some (.integer bounds) ∧ Holds wide bounds) ∨
    ∃ known, e.type = some (.boolean known)

section Operation

variable {p : Program} {wide : IntType} {e : Expression} {args : List Expression}

theorem integerOf_eq_finite (bound : Option Numeral) :
    integerOf bound = finite bound := by
  cases bound <;> rfl

/-- A type is made for the bounds of an expression. -/
inductive Suits : ValueType → Expression → Prop
  | integer {t : IntType} {e : Expression} {bounds : IntegerType}
      (hasType : e.type = some (.integer bounds)) (holds : Holds t bounds) :
      Suits (.integer (some t)) e
  | boolean {e : Expression} {known : BooleanType} (hasType : e.type = some (.boolean known)) :
      Suits .boolean e

theorem Suits.isThere {t : ValueType} (suits : Suits t e) : t.exists? = true := by
  cases suits <;> rfl

theorem valueType_of_plain (isWide : wide ∈ wideTypes) (plain : IsPlain wide e) :
    ∃ t, valueType p e.type = .ok t ∧ Suits t e := by
  rcases plain with ⟨_, hasType, low, high, lowIs, highIs, inWide⟩ | ⟨_, hasType⟩
  · rcases IntType.forRange_of_holds isWide inWide with ⟨t, chosen, inType⟩
    refine ⟨.integer (some t), ?_, .integer hasType ⟨low, high, lowIs, highIs, inType⟩⟩
    simp [valueType, hasType, Failure.require, bind, Except.bind, integerOf_eq_finite, lowIs,
      highIs, chosen, pure, Except.pure]
  · refine ⟨.boolean, ?_, .boolean hasType⟩
    rw [valueType, hasType]
    rfl

theorem valueTypes_of_plain (isWide : wide ∈ wideTypes) (plain : ∀ e ∈ args, IsPlain wide e) :
    ∃ types, args.mapM (fun e => valueType p e.type) = .ok types ∧
      List.Forall₂ Suits types args := by
  induction args with
  | nil => exact ⟨[], rfl, .nil⟩
  | cons first rest ih =>
    rcases valueType_of_plain (p := p) isWide (plain first (mem_cons_self ..)) with
      ⟨t, isType, suits⟩
    rcases ih fun e member => plain e (mem_cons_of_mem _ member) with
      ⟨types, areTypes, suit⟩
    refine ⟨t :: types, ?_, .cons suits suit⟩
    rw [mapM_eq_ok] at areTypes ⊢
    exact .cons isType areTypes

/-- What an operation over integers and truth values ranges over. -/
theorem range_of_plain {start : OperationRange} (plain : ∀ e ∈ args, IsPlain wide e) :
    ∃ range, (args.map Expression.type).foldlM (OperationRange.add p) start = .ok range ∧
      range.enumerations = start.enumerations ∧
      (∀ pair ∈ range.integers, pair ∈ start.integers ∨ wide.holds pair.1 pair.2 = true) ∧
      (∀ pair ∈ start.integers, pair ∈ range.integers) ∧
      ∀ e ∈ args, ∀ bounds, e.type = some (.integer bounds) → ∃ low high,
        (low, high) ∈ range.integers ∧ finite bounds.minimum = .ok low ∧
          finite bounds.maximum = .ok high := by
  induction args generalizing start with
  | nil => exact ⟨start, rfl, rfl, fun pair => .inl, fun pair => id, nofun⟩
  | cons first rest ih =>
    have ofRest := fun e member => plain e (mem_cons_of_mem _ member)
    rcases plain first (mem_cons_self ..) with ⟨bounds, hasType, holds⟩ | ⟨_, hasType⟩
    · rcases holds with ⟨low, high, lowIs, highIs, inWide⟩
      rcases @ih { start with integers := start.integers ++ [(low, high)] } ofRest with
        ⟨range, run, names, only, kept, found⟩
      refine ⟨range, ?_, names, fun pair member => ?_, fun pair member => ?_, ?_⟩
      · rw [map_cons, foldlM_cons, hasType]
        simpa [OperationRange.add, Failure.require, bind, Except.bind, integerOf_eq_finite,
          lowIs, highIs, pure, Except.pure] using run
      · rcases only pair member with before | isHeld
        · rcases mem_append.1 before with earlier | isThis
          · exact .inl earlier
          · cases mem_singleton.1 isThis
            exact .inr inWide
        · exact .inr isHeld
      · exact kept pair (mem_append_left _ member)
      · intro e member others sameType
        rcases mem_cons.1 member with rfl | inRest
        · cases hasType.symm.trans sameType
          exact ⟨low, high, kept _ (by simp), lowIs, highIs⟩
        · exact found e inRest others sameType
    · rcases @ih { start with hasBoolean := true } ofRest with
        ⟨range, run, names, only, kept, found⟩
      refine ⟨range, ?_, names, only, kept, ?_⟩
      · rw [map_cons, foldlM_cons, hasType]
        simpa [OperationRange.add, Failure.require, bind, Except.bind, pure, Except.pure] using run
      · intro e member others sameType
        rcases mem_cons.1 member with rfl | inRest
        · cases hasType.symm.trans sameType
        · exact found e inRest others sameType

/-- The types of an operation over integers and truth values, one of them an integer. -/
theorem operationTypes_of_plain (isWide : wide ∈ wideTypes)
    (plain : ∀ clause ∈ e :: args, IsPlain wide clause)
    (integer : ∃ clause ∈ e :: args, sort? clause = some .integer) :
    ∃ types t, operationTypes p e.type args = .ok types ∧ types.intermediate = .integer (some t) ∧
      (∀ clause ∈ e :: args, Fits t clause) ∧ Suits types.result e ∧
      List.Forall₂ Suits types.arguments args := by
  rcases @range_of_plain p wide (e :: args) {} plain with ⟨range, run, names, only, _, found⟩
  rcases valueTypes_of_plain (p := p) isWide fun arg member =>
    plain arg (mem_cons_of_mem _ member) with ⟨arguments, areTypes, suit⟩
  rcases valueType_of_plain (p := p) isWide (plain e (mem_cons_self ..)) with
    ⟨result, isType, suits⟩
  have nonempty : range.integers ≠ [] := by
    rcases integer with ⟨clause, member, isInteger⟩
    rcases plain clause member with ⟨bounds, hasType, _⟩ | ⟨_, hasType⟩
    · rcases found clause member bounds hasType with ⟨low, high, inRange, _⟩
      exact ne_nil_of_mem inRange
    · rw [sort?_of_type hasType] at isInteger
      cases isInteger
  cases integers : range.integers with
  | nil => exact (nonempty integers).elim
  | cons first rest =>
    rcases first with ⟨low, high⟩
    have inWide : wide.holds ((rest.map (·.1)).foldl min low) ((rest.map (·.2)).foldl max high) =
        true := by
      rw [IntType.holds_union, ← integers]
      intro pair member
      exact (only pair member).resolve_left (by simp)
    rcases IntType.forRange_of_holds isWide inWide with ⟨t, chosen, inType⟩
    rw [IntType.holds_union, ← integers] at inType
    have intermediate : range.intermediate = .ok (.integer (some t)) := by
      rw [OperationRange.intermediate, integers, names]
      simp only [chosen]
      rfl
    refine ⟨⟨.integer (some t), result, arguments⟩, t, ?_, rfl, fun clause member bounds typed =>
      ?_, suits, suit⟩
    · rw [operationTypes, ← map_cons (f := Expression.type), run]
      simp [bind, Except.bind, intermediate, areTypes, isType, pure, Except.pure]
    · rcases found clause member bounds typed with ⟨low, high, inRange, lowIs, highIs⟩
      exact ⟨low, high, lowIs, highIs, inType (low, high) inRange⟩

end Operation

/-! ## Operations that are computed at run time -/

section Accepted

variable {p : Program} {operator : Operator} {args : List Expression} {word : Option Word}
  {location : Option Location} {note : Annotation}

theorem typed_of_performs {root : Expression} (wellTyped : WellTyped p none root)
    (complete : Complete p root)
    (performs : Performs root (.function (some operator) args word location note)) :
    WellTyped p none (.function (some operator) args word location note) ∧
      Complete p (.function (some operator) args word location note) := by
  generalize isPart : Expression.function (some operator) args word location note = part
    at performs ⊢
  induction performs with
  | here => exact ⟨wellTyped, complete⟩
  | argument _ member inner ih =>
    cases wellTyped with
    | @operation outer _ _ _ _ arguments accepts =>
      have other : outer ≠ .presence := by
        rintro rfl
        exact accepts
      rcases settled_operation other (.operation arguments accepts) complete with
        ⟨_, _, _, _, _, _, each⟩
      exact ih (each _ member).1 (each _ member).2 isPart
    | presence argument =>
      -- the only argument is a field, which performs no operation
      cases mem_singleton.1 member
      cases inner
      cases isPart

/-- Integers are not mixed with enumerations. -/
theorem sorts_of_accepts {sorts : List (Option TypeSort)} {result : Option TypeSort}
    (accepts : operator.Accepts sorts result) (integer : some TypeSort.integer ∈ result :: sorts) :
    ∀ sort ∈ result :: sorts, sort = some .integer ∨ sort = some .boolean := by
  cases operator with
  | addition | subtraction | multiplication | and | or | upperBound | lowerBound =>
    rcases accepts with ⟨rfl, rfl⟩
    simp
  | equality | inequality | less | lessOrEqual | greater | greaterOrEqual =>
    rcases accepts with ⟨⟨sort, _, rfl⟩, rfl⟩
    obtain rfl : some .integer = sort := by simpa using integer
    simp
  | choice =>
    rcases accepts with ⟨_, rfl⟩
    obtain rfl : some .integer = result := by simpa using integer
    simp
  | maximum =>
    rcases accepts with ⟨all, rfl⟩
    intro sort member
    rcases mem_cons.1 member with rfl | inSorts
    · exact .inl rfl
    · exact .inl (all sort inSorts)
  | unknown | presence => exact accepts.elim

theorem isPlain_of_sort {wide : IntType} {e : Expression} (fits : Fits wide e)
    (sort : sort? e = some .integer ∨ sort? e = some .boolean) : IsPlain wide e := by
  cases typed : e.type with
  | none => simp [sort?, typed] at sort
  | some t =>
    rw [sort?_of_type typed] at sort
    cases t with
    | integer bounds => exact .inl ⟨bounds, typed, fits bounds typed⟩
    | boolean known => exact .inr ⟨known, typed⟩
    | _ => simp [sortOf] at sort

theorem carries_of_suits {t : ValueType} {e : Expression} (typed : AllTyped p)
    (wellTyped : WellTyped p none e) (complete : Complete p e) (suits : Suits t e) :
    t.Carries p e := by
  refine ⟨suits.isThere, fun ρ here v admissible evaluates => ?_⟩
  rcases (sound_of_evaluates typed admissible evaluates wellTyped nofun complete).known with
    ⟨own, isType, within⟩
  cases suits with
  | integer hasType holds =>
    cases hasType.symm.trans isType
    rcases within_integer within with ⟨_, rfl, bounded⟩
    rcases holds with ⟨low, high, lowIs, highIs, held⟩
    rw [IntType.holds_iff] at held
    exact ⟨held.1.trans (le_of_atLeast lowIs bounded.low),
      (le_of_atMost highIs bounded.high).trans held.2⟩
  | boolean hasType =>
    cases hasType.symm.trans isType
    rcases within_boolean within with ⟨b, rfl, _⟩
    trivial

/-- Every operator has a function, but for those that are always constant and presence. -/
theorem functionName?_of_varies {t : ExpressionType} {own : ExpressionType}
    (other : operator ≠ .presence) (accepts : operator.Accepts (args.map sort?) (sortOf t))
    (rule : operatorType operator own args = .ok t) (varies : t.isConstant = false) :
    ∃ name, functionName? operator = some name := by
  have notBound (isUpper : Bool) (sorts : args.map sort? = [some .integer])
      (rule : boundFunction isUpper own args = .ok t) : False := by
    rcases map_eq_singleton_iff.1 sorts with ⟨arg, rfl, _⟩
    rcases boundFunction_eq_ok rule with ⟨_, _, rfl⟩
    cases varies
  cases operator with
  | unknown => exact accepts.elim
  | presence => exact (other rfl).elim
  | upperBound => exact (notBound true accepts.1 rule).elim
  | lowerBound => exact (notBound false accepts.1 rule).elim
  | _ => exact ⟨_, rfl⟩

theorem callHead_of_suits {types : OperationTypes} {name : String}
    (isNamed : functionName? operator = some name)
    (suit : List.Forall₂ Suits types.arguments args) :
    ∃ head, callHead (some operator) types = .ok head := by
  have given : types.arguments.mapM ValueType.require =
      .ok (types.arguments.map ValueType.text) := by
    rw [mapM_eq_ok, List.forall₂_map_right_iff, List.forall₂_same]
    intro t member
    rcases exists_right_of_mem suit member with ⟨arg, _, suits⟩
    rw [ValueType.require, if_pos suits.isThere]
  rw [callHead, given]
  simp only [Option.bind_some, isNamed, Failure.entry]
  exact ⟨_, rfl⟩

end Accepted

/-- An operation that code performs at run time, other than asking for the presence of a field,
is computed with integers of 64 bits of one sort: there is a type that has all values of its
result and its arguments.  If there is an integer among these, the call of the operation is
written with types that exist and have the values: one for all of them, one for the result and
one for each argument. -/
theorem operation_fits {p q : Program} {a : Address} {root : Expression} {operator : Operator}
    {args : List Expression} {word : Option Word} {location : Option Location} {note : Annotation}
    (computed : Computed p) (accepted : Constraint.check p = .ok (q, []))
    (atRunTime : AtRunTime p a root)
    (performs : Performs root (.function (some operator) args word location note))
    (other : operator ≠ .presence) :
    ∃ wide ∈ wideTypes,
      (∀ clause ∈ .function (some operator) args word location note :: args,
        sort? clause = some .integer → (ValueType.integer (some wide)).Carries p clause) ∧
      ((∃ clause ∈ .function (some operator) args word location note :: args,
          sort? clause = some .integer) →
        ∃ types t head, operationTypes p note.type args = .ok types ∧
          callHead (some operator) types = .ok head ∧
          types.intermediate = .integer (some t) ∧
          (∀ clause ∈ .function (some operator) args word location note :: args,
            sort? clause = some .integer → types.intermediate.Carries p clause) ∧
          types.result.Carries p (.function (some operator) args word location note) ∧
          List.Forall₂ (ValueType.Carries · p ·) types.arguments args) := by
  rcases expressionErrors_of_check accepted atRunTime with ⟨_, run⟩
  rcases fits_of_expressionErrors run performs with ⟨wide, isWide, fits⟩
  rcases typed_of_performs (computed.wellTyped a root atRunTime.there)
    (computed.complete a root atRunTime.there) performs with ⟨wellTyped, complete⟩
  rcases settled_operation other wellTyped complete with ⟨own, t, _, hasType, rule, accepts, each⟩
  have typed (clause : Expression)
      (member : clause ∈ .function (some operator) args word location note :: args) :
      WellTyped p none clause ∧ Complete p clause := by
    rcases mem_cons.1 member with rfl | inArgs
    · exact ⟨wellTyped, complete⟩
    · exact each clause inArgs
  have carries (t : IntType)
      (fits : ∀ clause ∈ .function (some operator) args word location note :: args, Fits t clause)
      (clause : Expression)
      (member : clause ∈ .function (some operator) args word location note :: args)
      (isInteger : sort? clause = some .integer) :
      (ValueType.integer (some t)).Carries p clause := by
    rcases isPlain_of_sort (fits clause member) (.inl isInteger) with
      ⟨_, isType, holds⟩ | ⟨_, isType⟩
    · exact carries_of_suits computed.wellTyped (typed clause member).1 (typed clause member).2
        (.integer isType holds)
    · rw [sort?_of_type isType] at isInteger
      cases isInteger
  refine ⟨wide, isWide, carries wide fits, fun integer => ?_⟩
  have resultSort : sort? (.function (some operator) args word location note) = sortOf t :=
    sort?_of_type hasType
  have plain : ∀ clause ∈ .function (some operator) args word location note :: args,
      IsPlain wide clause := by
    rcases integer with ⟨integer, isClause, isInteger⟩
    have inSorts : some .integer ∈ sortOf t :: args.map sort? := by
      rw [← resultSort, ← map_cons, ← isInteger]
      exact mem_map_of_mem isClause
    intro clause member
    refine isPlain_of_sort (fits clause member) (sorts_of_accepts accepts inSorts _ ?_)
    rw [← resultSort, ← map_cons]
    exact mem_map_of_mem member
  rcases operationTypes_of_plain (p := p) isWide plain integer with
    ⟨types, chosen, isTypes, isChosen, fitsChosen, suitsResult, suitArguments⟩
  rcases functionName?_of_varies other accepts rule (performs.varies t hasType) with
    ⟨_, isNamed⟩
  rcases callHead_of_suits isNamed suitArguments with ⟨head, isHead⟩
  refine ⟨types, chosen, head, isTypes, isHead, isChosen, ?_,
    carries_of_suits computed.wellTyped wellTyped complete suitsResult, ?_⟩
  · rw [isChosen]
    exact carries chosen fitsChosen
  · rw [List.forall₂_iff_zip] at suitArguments ⊢
    refine ⟨suitArguments.1, fun member => ?_⟩
    have isArgument := each _ (of_mem_zip member).2
    exact carries_of_suits computed.wellTyped isArgument.1 isArgument.2 (suitArguments.2 member)

/-- Code is made for the sum of a byte and ten. -/
theorem atRunTime_tenMore : AtRunTime Sample.finished
    [⟨"module", 0⟩, ⟨"type", 0⟩, ⟨"structure", 0⟩, ⟨"field", 1⟩, ⟨"read_transform", 0⟩]
    Sample.tenMore :=
  atRunTime_read (a := [⟨"module", 0⟩, ⟨"type", 0⟩, ⟨"structure", 0⟩, ⟨"field", 1⟩])
    (f := Sample.computedField "shifted" Sample.tenMore Constraint.Sample.always) (by cbv) rfl

/-- The sum of a byte and ten is computed in types that exist. -/
theorem operation_fits_sum :
    Constraint.check Sample.finished = .ok (Sample.finished, []) ∧
      ∃ types t head,
        operationTypes Sample.finished Sample.tenMore.type
          [Bounds.Sample.member "counter" Bounds.Sample.ofByte, Sample.knownNumber 10] =
            .ok types ∧
        callHead (some .addition) types = .ok head ∧ types.intermediate = .integer (some t) ∧
        types.intermediate.Carries Sample.finished Sample.tenMore := by
  have varies : Varies Sample.tenMore := by
    rintro t ⟨⟩
    rfl
  rcases operation_fits Sample.computed_finished Sample.accepted_finished atRunTime_tenMore
    (.here varies) (by decide) with ⟨_, _, _, chosen⟩
  rcases chosen ⟨Sample.tenMore, mem_cons_self .., rfl⟩ with
    ⟨types, t, head, isTypes, isHead, isInteger, carries, _⟩
  exact ⟨Sample.accepted_finished, types, t, head, isTypes, isHead, isInteger,
    carries _ (mem_cons_self ..) rfl⟩

end BinaryLayout.Cpp
