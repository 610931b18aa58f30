import BinaryLayout.Constraint.Check
import BinaryLayout.Cpp.Integer
import BinaryLayout.Proofs.IR.Walk
import BinaryLayout.Proofs.Report

/-!
# Operations that fit in 64 bits

An expression that is accepted has no operation that needs more than one sort of integers: there
is a type of 64 bits that holds all values of its result and of its arguments.  This goes for all
operations that code has to compute.  Where the value of a part is known, code has that value and
computes nothing below it.

Main statement: in an accepted program there is such a type for every operation that is computed
at run time.
-/

namespace BinaryLayout.Constraint

open IR Checked List

/-- The integer types of 64 bits. -/
def wideTypes : List Cpp.IntType :=
  [⟨true, 64⟩, ⟨false, 64⟩]

/-- All values within some bounds are values of a type. -/
def Holds (wide : Cpp.IntType) (bounds : IntegerType) : Prop :=
  ∃ low high, Bounds.finite bounds.minimum = .ok low ∧ Bounds.finite bounds.maximum = .ok high ∧
    wide.holds low high = true

/-- All integers that an expression can be are values of a type. -/
def Fits (wide : Cpp.IntType) (e : Expression) : Prop :=
  ∀ bounds, e.type = some (.integer bounds) → Holds wide bounds

/-- The value of an expression is not known. -/
def Varies (e : Expression) : Prop :=
  ∀ t, e.type = some t → t.isConstant = false

/-- Code for an expression computes a part of it. -/
inductive Performs : Expression → Expression → Prop
  | here {e : Expression} (varies : Varies e) : Performs e e
  | argument {operator : Option Operator} {args : List Expression} {word : Option Word}
      {location : Option Location} {note : Annotation} {arg part : Expression}
      (varies : Varies (.function operator args word location note)) (member : arg ∈ args)
      (inner : Performs arg part) : Performs (.function operator args word location note) part

theorem Performs.varies {e part : Expression} (performs : Performs e part) : Varies part := by
  induction performs with
  | here varies => exact varies
  | argument _ _ _ ih => exact ih

/-! ## One expression -/

section Expression

variable {file : String} {e : Expression} {args : List Expression}

variable {location : Option Location} {s : Signedness} {operator : Option Operator}
  {word : Option Word} {note : Annotation}

theorem fitsSigned_eq (low high : Int) :
    fitsSigned low high = Cpp.IntType.holds ⟨true, 64⟩ low high :=
  rfl

theorem fitsUnsigned_eq (low high : Int) :
    fitsUnsigned low high = Cpp.IntType.holds ⟨false, 64⟩ low high :=
  rfl

theorem givenBound_eq_ok {bound : Bounds.Bound} {n : Numeral} (run : givenBound bound = .ok n) :
    bound = some n := by
  unfold givenBound at run
  split at run
  · split at run
    · cases run
    · cases run
      rfl
  · cases run

/-- A range that nothing is wrong with fits in one of the types of 64 bits. -/
theorem holds_of_rangeErrors {name : String} {t : IntegerType}
    (run : rangeErrors file location name t = .ok []) : ∃ wide ∈ wideTypes, Holds wide t := by
  simp only [rangeErrors, bind_eq_ok] at run
  rcases run with ⟨_, isMinimum, _, isMaximum, run⟩
  rw [apply_ite (· = Except.ok [])] at run
  split at run
  · cases run
  · simp only [bind_eq_ok] at run
    rcases run with ⟨low, lowIs, high, highIs, run⟩
    have bounded (wide : Cpp.IntType) (holds : wide.holds low high = true) : Holds wide t := by
      refine ⟨low, high, ?_, ?_, holds⟩
      · rw [givenBound_eq_ok isMinimum]
        exact lowIs
      · rw [givenBound_eq_ok isMaximum]
        exact highIs
    rw [fitsUnsigned_eq, fitsSigned_eq] at run
    split at run
    · rename_i fits
      rcases Bool.or_eq_true_iff.1 fits with unsigned | signed
      · exact ⟨⟨false, 64⟩, by simp [wideTypes], bounded _ unsigned⟩
      · exact ⟨⟨true, 64⟩, by simp [wideTypes], bounded _ signed⟩
    · split at run <;> cases run

theorem fits_of_ownRangeErrors (run : ownRangeErrors file e = .ok []) :
    ∃ wide ∈ wideTypes, Fits wide e := by
  simp only [ownRangeErrors, bind_eq_ok, Failure.require_eq_ok] at run
  rcases run with ⟨t, hasType, run⟩
  cases t with
  | integer =>
    rcases holds_of_rangeErrors run with ⟨wide, isWide, holds⟩
    refine ⟨wide, isWide, fun others same => ?_⟩
    cases hasType.symm.trans same
    exact holds
  | _ =>
    refine ⟨⟨true, 64⟩, by simp [wideTypes], fun others same => ?_⟩
    cases hasType.symm.trans same

/-- The sort of integers that an expression needs, taken apart. -/
theorem signednessOf_eq_ok (run : signednessOf e = .ok s) :
    (s ≠ .unsigned → Fits ⟨true, 64⟩ e) ∧
      (s = .unsigned → ¬ Fits ⟨true, 64⟩ e) ∧ (s = .any → Fits ⟨false, 64⟩ e) := by
  simp only [signednessOf, bind_eq_ok, Failure.require_eq_ok] at run
  rcases run with ⟨t, hasType, run⟩
  cases t with
  | integer bounds =>
    simp only [bind_eq_ok] at run
    rcases run with ⟨low, lowIs, high, highIs, run⟩
    have fits_iff (wide : Cpp.IntType) : Fits wide e ↔ wide.holds low high = true := by
      constructor
      · intro fits
        rcases fits bounds hasType with ⟨_, _, lowIs', highIs', holds⟩
        cases lowIs.symm.trans lowIs'
        cases highIs.symm.trans highIs'
        exact holds
      · intro holds others same
        cases hasType.symm.trans same
        exact ⟨low, high, lowIs, highIs, holds⟩
    rw [fits_iff, fits_iff, ← fitsSigned_eq, ← fitsUnsigned_eq]
    cases signed : fitsSigned low high <;> cases unsigned : fitsUnsigned low high <;>
      simp [signed, unsigned] at run <;> subst run <;> simp
  | _ =>
    rw [pure_eq_ok] at run
    subst run
    have vacuous (wide : Cpp.IntType) : Fits wide e := by
      intro others same
      cases hasType.symm.trans same
    refine ⟨fun _ => vacuous _, fun other => ?_, fun _ => vacuous _⟩
    cases other

theorem fits_unsigned_of_signednessOf (run : signednessOf e = .ok s)
    (alone : ∃ wide ∈ wideTypes, Fits wide e) (other : s ≠ .signed) : Fits ⟨false, 64⟩ e := by
  rcases signednessOf_eq_ok run with ⟨_, needsUnsigned, ofAny⟩
  cases s with
  | any => exact ofAny rfl
  | signed => exact (other rfl).elim
  | unsigned =>
    rcases alone with ⟨wide, isWide, fits⟩
    rcases mem_pair.1 isWide with rfl | rfl
    · exact (needsUnsigned rfl fits).elim
    · exact fits

/-- If no operand needs one sort and no other the other sort, then all fit in one type. -/
theorem fits_of_mixedErrors {name : Option Word} (run : mixedErrors file e args name = .ok [])
    (alone : ∀ clause ∈ e :: args, ∃ wide ∈ wideTypes, Fits wide clause) :
    ∃ wide ∈ wideTypes, ∀ clause ∈ e :: args, Fits wide clause := by
  simp only [mixedErrors, bind_eq_ok, mapM_eq_ok] at run
  rcases run with ⟨clauses, each, run⟩
  have signednessIs {clause : Expression} (member : clause ∈ e :: args) :
      ∃ s, (clause, s) ∈ clauses ∧ signednessOf clause = .ok s := by
    rcases exists_right_of_mem each member with ⟨_, inClauses, step⟩
    rcases step with ⟨s, isSigned, same⟩
    rw [pure_eq_ok] at same
    exact ⟨s, same ▸ inClauses, isSigned⟩
  split at run
  · rename_i oneSort
    simp only [Bool.or_eq_true, List.isEmpty_iff, filter_eq_nil_iff, beq_iff_eq,
      Prod.forall] at oneSort
    rcases oneSort with noUnsigned | noSigned
    · refine ⟨⟨true, 64⟩, by simp [wideTypes], fun clause member => ?_⟩
      rcases signednessIs member with ⟨s, inClauses, isSigned⟩
      exact (signednessOf_eq_ok isSigned).1 (noUnsigned clause s inClauses)
    · refine ⟨⟨false, 64⟩, by simp [wideTypes], fun clause member => ?_⟩
      rcases signednessIs member with ⟨s, inClauses, isSigned⟩
      exact fits_unsigned_of_signednessOf isSigned (alone clause member)
        (noSigned clause s inClauses)
  · rcases bind_eq_ok.1 run with ⟨_, _, impossible⟩
    cases impossible

/-! ## All that code computes -/

theorem expressionErrors_of_argumentErrors (run : argumentErrors file args = .ok [])
    {arg : Expression} (member : arg ∈ args) : expressionErrors file arg = .ok [] := by
  induction args with
  | nil => cases member
  | cons _ _ ih =>
    simp only [argumentErrors, bind_eq_ok, pure_eq_ok, append_eq_nil_iff] at run
    rcases run with ⟨_, firstRun, _, restRun, rfl, rfl⟩
    rcases mem_cons.1 member with rfl | inRest
    · exact firstRun
    · exact ih restRun inRest

/-- What has to be right with a call whose value is not known. -/
theorem expressionErrors_function (varies : Varies (.function operator args word location note))
    (run : expressionErrors file (.function operator args word location note) = .ok []) :
    argumentErrors file args = .ok [] ∧
      ownRangeErrors file (.function operator args word location note) = .ok [] ∧
      mixedErrors file (.function operator args word location note) args word = .ok [] := by
  simp only [expressionErrors, bind_eq_ok, Failure.entry_eq_ok] at run
  rcases run with ⟨t, hasType, run⟩
  rw [varies t hasType, if_neg Bool.false_ne_true] at run
  rcases bind_eq_ok.1 run with ⟨inner, innerRun, run⟩
  cases inner with
  | cons => cases run
  | nil =>
    rcases bind_eq_ok.1 run with ⟨own, ownRun, run⟩
    cases own with
    | cons => cases run
    | nil => exact ⟨innerRun, ownRun, run⟩

theorem ownRangeErrors_of_expressionErrors (run : expressionErrors file e = .ok []) :
    ownRangeErrors file e = .ok [] := by
  cases e with
  | function operator args word location note =>
    by_cases varies : Varies (.function operator args word location note)
    · exact (expressionErrors_function varies run).2.1
    · simp only [Varies, not_forall, Bool.not_eq_false] at varies
      rcases varies with ⟨t, hasType, isConstant⟩
      have isNoted : note.type = some t := hasType
      simpa [expressionErrors, isNoted, Failure.entry, bind, Except.bind, isConstant] using run
  | _ => exact run

/-- Every operation that code computes for an accepted expression fits in one type. -/
theorem fits_of_expressionErrors (run : expressionErrors file e = .ok [])
    (performs : Performs e (.function operator args word location note)) :
    ∃ wide ∈ wideTypes, ∀ clause ∈ .function operator args word location note :: args,
      Fits wide clause := by
  generalize isPart : Expression.function operator args word location note = part at performs
  induction performs with
  | here varies =>
    subst isPart
    rcases expressionErrors_function varies run with ⟨inArguments, own, mixed⟩
    refine fits_of_mixedErrors mixed fun clause member => ?_
    rcases mem_cons.1 member with rfl | inArgs
    · exact fits_of_ownRangeErrors own
    · exact fits_of_ownRangeErrors (ownRangeErrors_of_expressionErrors
        (expressionErrors_of_argumentErrors inArguments inArgs))
  | argument varies member inner ih =>
    exact ih (expressionErrors_of_argumentErrors
      (expressionErrors_function varies run).1 member) isPart

end Expression

/-! ## All expressions of a program -/

section Program

variable {p q : Program} {e : Expression}

/-- What a type requires of its uses. -/
def IsRequirement (n : Node) : Prop :=
  ∃ a, n = .property a ∧ requiredText a.name = .ok (some "static_requirements")

/-- An expression of a program for which code is made: it is no value of an enumeration and does
not say what a type requires of its uses. -/
structure AtRunTime (p : Program) (address : Address) (e : Expression) : Prop where
  there : p.expressionAt? address = some e
  outside : Node.Avoids (fun n => n.kind = .enumValue ∨ IsRequirement n) address (.program p)

theorem atRunTime_read {a : Address} {f : Field}
    (there : (Node.program p).inner? a = some (.field f)) (reads : f.readTransform = some e) :
    AtRunTime p (a ++ [⟨"read_transform", 0⟩]) e := by
  have cannotHold :
      Kind.canHold .enumValue .field = false ∧ Kind.canHold .property .field = false := by
    decide +kernel
  rcases Node.exists_visitAt (Node.at?_of_inner? there) [] [] with ⟨v, visited, isNode⟩
  have isChild : (⟨"read_transform", 0⟩, .expression e) ∈ v.node.children := by
    simp [isNode, Node.children, mem_childIn_iff, reads]
  refine ⟨expressionAt?_read f there reads,
    (Node.avoids_iff (Node.visitAt_step visited isChild) (forall_mem_nil _)).2 ?_⟩
  refine forall_mem_cons.2 ⟨?_, fun m above avoided => ?_⟩
  · rw [isNode]
    rintro (impossible | ⟨_, impossible, _⟩) <;> cases impossible
  · have holds := Node.canHold_of_mem_ancestors visited above
    rw [isNode] at holds
    rcases avoided with isEnumValue | ⟨_, rfl, _⟩
    · rw [isEnumValue] at holds
      exact absurd holds (by simp [Node.kind, cannotHold])
    · exact absurd holds (by simp [Node.kind, cannotHold])

theorem grows_reportAll (groups : List MessageGroup) :
    Grows (forIn groups PUnit.unit fun group _ => do
      reportGroup group
      pure (ForInStep.yield PUnit.unit)) :=
  .loop .reportGroup

theorem grows_checkRange (v : Visit) (e : Expression) : Grows (checkRange v e) := by
  have range : Grows (do
      let groups ← liftM (expressionErrors v.file e)
      forIn groups PUnit.unit fun group _ => do
        reportGroup group
        pure (ForInStep.yield PUnit.unit)
      pure () : ReportM Unit) :=
    .bind (.lift _) fun groups => .bind (grows_reportAll groups) fun _ => .pure _
  unfold checkRange
  split
  · refine .bind (.lift _) fun name => ?_
    split
    · exact .pure _
    · exact range
  · exact range

theorem grows_checkParameter (file : String) (q : RuntimeParameter) :
    Grows (checkParameter p file q) := by
  refine .bind (.lift _) fun types => ?_
  rcases types with ⟨_, type⟩
  cases type with
  | integer t =>
    refine .bind (.lift _) fun errors => ?_
    split
    · exact .bind (.lift _) fun size => .bind (.lift _) fun errors =>
        .bind (grows_reportAll errors) fun _ => .pure _
    · exact .bind (.pure _) fun errors => .bind (grows_reportAll errors) fun _ => .pure _
  | enumeration => exact .pure _
  | _ => exact .throw _

theorem grows_checkFieldType (file : String) (t : TypeDefinition) (f : Field) (used : TypeSpec) :
    Grows (checkFieldType p file t f used) := by
  cases used with
  | atomic => exact .bind (.lift _) fun groups => .bind (grows_reportAll groups) fun _ => .pure _
  | _ => exact .pure _

theorem grows_checkName (file role : String) (n : Option NameDefinition) :
    Grows (checkName file n role) := by
  refine .bind (.lift _) fun name => .bind (.lift _) fun word => ?_
  split
  · exact .reportGroup _
  · exact .pure _

theorem grows_checkStatic (file : String) (e : Expression) : Grows (checkStatic p file e) := by
  unfold checkStatic
  split
  · refine .bind (.lift _) fun type => ?_
    split
    · split
      · exact .throw _
      · exact .bind (.lift _) fun found => .bind (.lift _) fun word => .reportGroup _
    · exact .pure _
  · exact .pure _

theorem grows_checkEnum (file : String) (t : TypeDefinition) (e : Enumeration) :
    Grows (checkEnum file t e) := by
  refine .bind (.lift _) fun bits => ?_
  cases bits with
  | none =>
    intro before u after run
    rcases run_bind_eq_ok.1 run with ⟨_, _, thrown, _⟩
    exact (run_throw_ne_ok thrown).elim
  | some bits =>
    refine .bind (.pure _) fun bits => .bind (.lift _) fun isSigned =>
      .bind (.mapM fun v => ?_) fun values => .bind (.forIn fun part => ?_) fun _ => .pure _
    · cases v.value with
      | none => exact .throw _
      | some =>
        refine .bind (.lift _) fun constant => ?_
        cases constant with
        | none => exact .throw _
        | some c => exact .pure _
    · rcases part with ⟨value, c⟩
      dsimp only
      split
      · exact .bind (.reportGroup _) fun _ => .pure _
      · exact .pure _

/-- The checks of uses of types, of static references and of ranges report nothing in an accepted
program. -/
theorem silent_of_check (run : check p = .ok (q, [])) :
    (∀ use ∈ p.partsOf Node.type? [.structureBody, .type], ∃ t f, use.1.typeDefinition? = some t ∧
        use.1.field? = some f ∧ Silent (checkFieldType p use.1.file t f use.2)) ∧
      (∀ part ∈ p.partsOf Node.expression? [.expression],
        Silent (checkStatic p part.1.file part.2)) ∧
      ∀ part ∈ p.partsOf Node.expression? [.expression] [.enumValue, .expression],
        Silent (checkRange part.1 part.2) := by
  simp only [check, ReportM.groups, bind_eq_ok, pure_eq_ok, Prod.mk.injEq] at run
  rcases run with ⟨groups, ⟨⟨_, _⟩, run, rfl⟩, _, reported⟩
  cases reported
  -- the loops before the one over uses of types may report what they like
  iterate 5 obtain ⟨_, _, _, run⟩ := run_bind_eq_ok.1 run
  obtain ⟨_, _, uses, run⟩ := run_bind_eq_ok.1 run
  obtain ⟨_, _, fieldNames, run⟩ := run_bind_eq_ok.1 run
  obtain ⟨_, _, valueNames, run⟩ := run_bind_eq_ok.1 run
  obtain ⟨_, _, typeNames, run⟩ := run_bind_eq_ok.1 run
  obtain ⟨_, _, statics, run⟩ := run_bind_eq_ok.1 run
  obtain ⟨_, _, enums, run⟩ := run_bind_eq_ok.1 run
  obtain ⟨_, _, ranges, run⟩ := run_bind_eq_ok.1 run
  obtain ⟨_, _, parameters, run⟩ := run_bind_eq_ok.1 run
  cases run_pure_eq_ok.1 run
  obtain rfl := (Grows.loop fun part : Visit × RuntimeParameter =>
    grows_checkParameter part.1.file part.2).eq_nil parameters
  obtain ⟨rfl, silentRanges⟩ := silent_of_loop
    (fun part : Visit × Expression => checkRange part.1 part.2)
    (fun part => grows_checkRange part.1 part.2) ranges
  obtain rfl := (Grows.forIn fun part : Visit × Enumeration =>
    .bind (.lift (Failure.require part.1.typeDefinition?)) fun t =>
      .bind (grows_checkEnum part.1.file t part.2) fun _ => .pure _).eq_nil enums
  obtain ⟨rfl, silentStatics⟩ := silent_of_loop
    (fun part : Visit × Expression => checkStatic p part.1.file part.2)
    (fun part => grows_checkStatic part.1.file part.2) statics
  obtain rfl := (Grows.loop fun part : Visit × TypeDefinition =>
    grows_checkName part.1.file "a type name" part.2.name).eq_nil typeNames
  obtain rfl := (Grows.loop fun part : Visit × EnumValue =>
    grows_checkName part.1.file "an enum name" part.2.name).eq_nil valueNames
  obtain rfl := (Grows.loop fun part : Visit × Field =>
    grows_checkName part.1.file "a field name" part.2.name).eq_nil fieldNames
  refine ⟨(forall_of_loop (fun _ _ => .bind fun _ => .bind fun _ => .bind fun _ => .pure _)
    ?_ uses).2, silentStatics, silentRanges⟩
  intro use _ before _ step
  rcases run_lift_bind_eq_ok.1 step with ⟨t, isType, step⟩
  rcases run_lift_bind_eq_ok.1 step with ⟨f, isField, step⟩
  rcases run_bind_eq_ok.1 step with ⟨_, _, checked, ends⟩
  cases ends
  obtain rfl := (grows_checkFieldType _ _ _ _).eq_nil checked
  exact ⟨rfl, t, f, Failure.require_eq_ok.1 isType, Failure.require_eq_ok.1 isField, checked⟩

/-- A check that reports nothing finds nothing wrong, unless it is not made. -/
theorem expressionErrors_of_checkRange {v : Visit} (silent : Silent (checkRange v e))
    (outside : ∀ n ∈ v.node :: v.ancestors, ¬ IsRequirement n) :
    expressionErrors v.file e = .ok [] := by
  have checked (silent : Silent (do
      let groups ← liftM (expressionErrors v.file e)
      forIn groups PUnit.unit fun group _ => do
        reportGroup group
        pure (ForInStep.yield PUnit.unit)
      pure ())) : expressionErrors v.file e = .ok [] := by
    rcases run_lift_bind_eq_ok.1 silent with ⟨groups, isGroups, run⟩
    obtain ⟨_, _, reported, run⟩ := run_bind_eq_ok.1 run
    cases run_pure_eq_ok.1 run
    cases eq_nil_of_silent_report reported
    exact isGroups
  unfold checkRange at silent
  split at silent
  · rename_i a nearest
    rcases run_lift_bind_eq_ok.1 silent with ⟨_, isName, run⟩
    split at run
    · rename_i isRequirement
      rcases exists_of_findSome?_eq_some nearest with ⟨n, member, isProperty⟩
      refine (outside n member ⟨a, ?_, ?_⟩).elim
      · cases n <;> cases isProperty
        rfl
      · rw [isName, beq_iff_eq.1 isRequirement]
    · exact checked run
  · exact checked silent

/-- Nothing is wrong with an expression of an accepted program that code is made for. -/
theorem expressionErrors_of_check {a : Address} (run : check p = .ok (q, []))
    (atRunTime : AtRunTime p a e) : ∃ file, expressionErrors file e = .ok [] := by
  have there := Node.top?_eq_some.1 atRunTime.there
  rcases Node.exists_visitAt (Node.at?_of_inner? there) [] [] with ⟨v, visited, nodeIs⟩
  have outside := (Node.avoids_iff visited (forall_mem_nil _)).1 atRunTime.outside
  have between := (Node.avoids_iff visited (forall_mem_nil _)).1 (Node.avoids_expression there)
  have isVisit : v ∈ p.visits [v.node.kind] [.enumValue, .expression] := by
    refine Program.mem_visits_of_visitAt visited fun m above skipped => ?_
    rcases mem_pair.1 skipped with isEnumValue | isExpression
    · exact outside m above (.inl isEnumValue)
    · exact between m above isExpression
  rw [nodeIs] at isVisit
  have isPart : (v, e) ∈ p.partsOf Node.expression? [.expression] [.enumValue, .expression] :=
    mem_filterMap.2 ⟨v, isVisit, by rw [nodeIs]; rfl⟩
  refine ⟨v.file, expressionErrors_of_checkRange ((silent_of_check run).2.2 _ isPart) ?_⟩
  intro n around
  rcases mem_cons.1 around with rfl | outer
  · rintro ⟨_, same, _⟩
    cases nodeIs.symm.trans same
  · exact fun isRequirement => outside n outer (.inr isRequirement)

end Program

end BinaryLayout.Constraint
