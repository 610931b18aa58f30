import BinaryLayout.Proofs.Constraint.Accepted
import BinaryLayout.Proofs.Writing.Method
import BinaryLayout.Proofs.Writing.Store

/-!
# Writing is the inverse of reading

Writing a virtual field goes from field to field: each step computes the value for the next one,
and the last is stored.  Main statement: what is then read from the virtual field is the value that
was written, and no other value in its place would be read as this one.
-/

namespace BinaryLayout.Writing

open IR Typing Bounds List

/-! ## What writing does -/

/-- The field that is written in place of a field. -/
def destination? : WriteMethod → Option FieldReference
  | .alias r => some r
  | .transform t => t.destination
  | _ => none

/-- The fields that are written in place of each other end with a physical one. -/
inductive EndsPhysical (p : Program) : WriteMethod → Prop
  | last {m : WriteMethod} {r : FieldReference} {last : Reference} {name : CanonicalName}
      {g : Field} (destination : destination? m = some r) (ends : r.path.getLast? = some last)
      (named : last.Names p name (.field g)) (isPhysical : g.isVirtual = false)
      (method : g.writeMethod = some (.physical true)) : EndsPhysical p m
  | onward {m m' : WriteMethod} {r : FieldReference} {last : Reference} {name : CanonicalName}
      {g : Field} (destination : destination? m = some r) (ends : r.path.getLast? = some last)
      (named : last.Names p name (.field g)) (isVirtual : g.isVirtual = true)
      (method : g.writeMethod = some m') (rest : EndsPhysical p m') : EndsPhysical p m

/-- To write a value to a field, some value is written to another. -/
inductive Passes (p : Program) (ρ : Valuation) (here : Place) :
    WriteMethod → Constant → FieldReference → Constant → Prop
  | direct {r : FieldReference} {v : Constant} : Passes p ρ here (.alias r) v r v
  | transform {body : Expression} {r : FieldReference} {v u : Constant}
      (value : Evaluates p { ρ with logicalValue := v } here body u) :
      Passes p ρ here (.transform ⟨some body, some r⟩) v r u

/-- To write a value to a field at a place, some value is stored at another place. -/
inductive Writes (p : Program) (ρ : Valuation) :
    Place → WriteMethod → Constant → Place → Constant → Prop
  | last {here there : Place} {m : WriteMethod} {v u : Constant} {r : FieldReference}
      {name : CanonicalName} {g : Field} (passes : Passes p ρ here m v r u)
      (reaches : r.Reaches p here there name (.field g))
      (method : g.writeMethod = some (.physical true)) :
      Writes p ρ here m v (there ++ [name]) u
  | onward {here there place : Place} {m m' : WriteMethod} {v u w : Constant}
      {r : FieldReference} {name : CanonicalName} {g : Field} (passes : Passes p ρ here m v r u)
      (reaches : r.Reaches p here there name (.field g)) (method : g.writeMethod = some m')
      (rest : Writes p ρ there m' u place w) : Writes p ρ here m v place w

/-- Storing a value at a place makes an expression have the value that was written, and no other
value does. -/
structure Restores (p : Program) (ρ : Valuation) (here : Place) (e : Expression) (v : Constant)
    (place : Place) (w : Constant) : Prop where
  evaluates : Evaluates p (ρ.store place w) here e v
  only : ∀ x u, (sort? e = some .integer → Admissible p (ρ.store place x)) →
    Evaluates p (ρ.store place x) here e u → (u = v ↔ x = w)
  admissible : sort? e = some .integer ∨ sort? e = some .boolean → Admissible p (ρ.store place w)

/-- A value that can be written to a virtual field with an expression. -/
structure Storable (e : Expression) (v : Constant) : Prop where
  number : ∀ bounds, e.type = some (.integer bounds) → ∃ n, v = .int n ∧ Between bounds n
  truth : sort? e = some .boolean → ∃ b, v = .bool b

theorem storable_of_within {e : Expression} {t : ExpressionType} {v : Constant}
    (hasType : e.type = some t) (within : Within t v) : Storable e v := by
  constructor
  · intro bounds isInteger
    cases hasType.symm.trans isInteger
    rcases within_integer within with ⟨n, rfl, bounded⟩
    exact ⟨n, rfl, bounded.low, bounded.high⟩
  · intro isBoolean
    rw [sort?_of_type hasType] at isBoolean
    cases t with
    | boolean =>
      rcases within_boolean within with ⟨b, rfl, _⟩
      exact ⟨b, rfl⟩
    | _ => cases isBoolean

section Restores

variable {p : Program} {ρ : Valuation} {here there : Place} {e : Expression} {v m : Constant}
  {r : FieldReference} {inner : Annotation}

variable {last : Reference} {name : CanonicalName} {object : Object} {other : Expression}
  {place : Place} {w : Constant}

/-! ## A reference to a physical field -/

/-- What is known of a reference to a physical field: it is a truth value if the field is for
one, and how it got its type. -/
theorem stored_reference (wellTyped : WellTyped p none (.fieldReference r inner))
    (complete : Complete p (.fieldReference r inner)) (ends : r.path.getLast? = some last)
    (named : last.Names p name object) (isStored : object.isStored) :
    (object.isFlag = true ↔ sort? (.fieldReference r inner) = some .boolean) ∧
      ∃ own t, inner.type = some t ∧ storedType p own last object = .ok t ∧
        ∀ bounds, t = .integer bounds → checkConsistent bounds = .ok () := by
  constructor
  · cases wellTyped with
    | stored ends' named' _ _ flag =>
      cases ends.symm.trans ends'
      rcases names_unique named named' with ⟨_, rfl⟩
      exact flag
    | computed ends' named' isComputed _ _ =>
      exact (not_refers_of_isStored inner ends named isStored (.field ends' named' isComputed)).elim
  · rcases complete.settled with ⟨t, hasType, settled, consistent⟩
    rcases settled with ⟨_, rule⟩ | ⟨_, ends', named', _, rule⟩ | ⟨refers, _, _⟩
    · cases rule
    · cases ends.symm.trans ends'
      rcases names_unique named named' with ⟨_, rfl⟩
      exact ⟨_, t, hasType, rule, consistent⟩
    · exact (not_refers_of_isStored _ ends named isStored refers).elim

/-- A number in the range of a reference to a physical field has room in the field. -/
theorem hasRoom_of_storedType {before bounds : IntegerType} {n : Int}
    (rule : storedType p (.integer before) last object = .ok (.integer bounds))
    (consistent : checkConsistent bounds = .ok ()) (nameIs : last.canonicalName = some name)
    (between : Between bounds n) (bits : Nat) (hasSize : HasSize p name object bits) :
    HasRoom object.typeName? bits n := by
  rcases physicalBounds_eq_ok.1 rule with ⟨source, same⟩
  cases same
  cases nameIs.symm.trans source.nameIs
  exact source.hasRoom consistent between.low between.high bits hasSize

theorem restores_stored (admissible : Admissible p ρ)
    (wellTyped : WellTyped p none (.fieldReference r inner))
    (complete : Complete p (.fieldReference r inner)) (reaches : r.Reaches p here there name object)
    (isStored : object.isStored) (storable : Storable (.fieldReference r inner) m) :
    Restores p ρ here (.fieldReference r inner) m (there ++ [name]) m := by
  have readsBack (x : Constant) :
      Evaluates p (ρ.store (there ++ [name]) x) here (.fieldReference r inner) x := by
    have evaluates : Evaluates p (ρ.store (there ++ [name]) x) here (.fieldReference r inner) _ :=
      .stored reaches isStored
    rwa [Valuation.stored_store] at evaluates
  refine ⟨readsBack m, fun x u _ evaluates => ?_, fun isScalar => ?_⟩
  · have same : u = x := by
      cases evaluates with
      | stored reaches' =>
        rcases reaches.unique reaches' with ⟨rfl, rfl, rfl⟩
        exact Valuation.stored_store ..
      | computed reaches' isComputed _ =>
        rcases reaches.unique reaches' with ⟨_, _, rfl⟩
        cases (computed?_of_isStored isStored).symm.trans isComputed
    rw [same]
  · rcases reaches with ⟨_, _, ends, named⟩
    rcases stored_reference wellTyped complete ends named isStored with
      ⟨flag, own, t, hasType, rule, consistent⟩
    rcases named with ⟨nameIs, _, found⟩
    refine admissible.store found (fun isFlag => storable.truth (flag.1 isFlag)) fun notFlag => ?_
    have isInteger : sort? (.fieldReference r inner) = some .integer := by
      rcases isScalar with isInteger | isBoolean
      · exact isInteger
      · rw [flag.2 isBoolean] at notFlag
        cases notFlag
    rcases integer_of_sort isInteger with ⟨bounds, isBounds⟩
    cases hasType.symm.trans isBounds
    rcases storable.number bounds isBounds with ⟨n, rfl, between⟩
    have wasInteger := sortOf_storedType rule
    cases own with
    | integer =>
      exact ⟨n, rfl, hasRoom_of_storedType rule (consistent bounds rfl) nameIs between⟩
    | _ => cases wasInteger

/-! ## A reference to a virtual field -/

theorem type_of_computed (wellTyped : WellTyped p none (.fieldReference r inner))
    (complete : Complete p (.fieldReference r inner)) (ends : r.path.getLast? = some last)
    (named : last.Names p name object) (isComputed : object.computed? = some other) :
    sort? (.fieldReference r inner) = sort? other ∧
      ∀ bounds, inner.type = some (.integer bounds) → other.type = some (.integer bounds) := by
  have sorts : sort? (.fieldReference r inner) = sort? other ∧ (sort? other).isSome := by
    cases wellTyped with
    | stored ends' named' isStored _ _ =>
      exact (not_refers_of_isStored inner ends' named' isStored (.field ends named isComputed)).elim
    | computed ends' named' isComputed' sort isTyped =>
      cases ends.symm.trans ends'
      rcases names_unique named named' with ⟨_, rfl⟩
      cases isComputed.symm.trans isComputed'
      exact ⟨sort, isTyped⟩
  refine ⟨sorts.1, fun bounds isInteger => ?_⟩
  rcases complete.settled with ⟨t, hasType, settled, _⟩
  cases isInteger.symm.trans hasType
  generalize isType : ExpressionType.integer bounds = t at settled
  cases settled with
  | plain _ rule => cases rule
  | stored _ ends' named' isStored _ =>
    exact (not_refers_of_isStored inner ends' named' isStored (.field ends named isComputed)).elim
  | @refers _ _ own t refers _ otherType =>
    cases refers.unique (.field ends named isComputed)
    rw [otherType]
    cases t with
    | unset =>
      rw [sort?_of_type otherType] at sorts
      cases sorts.2
    | _ => rfl

theorem restores_computed (sameSort : sort? (.fieldReference r inner) = sort? other)
    (reaches : r.Reaches p here there name object) (isComputed : object.computed? = some other)
    (target : Restores p ρ there other m place w) :
    Restores p ρ here (.fieldReference r inner) m place w := by
  refine ⟨.computed reaches isComputed target.evaluates, fun x u admissible evaluates => ?_,
    fun isScalar => target.admissible (sameSort ▸ isScalar)⟩
  cases evaluates with
  | stored reaches' isStored =>
    rcases reaches.unique reaches' with ⟨_, _, rfl⟩
    cases (computed?_of_isStored isStored).symm.trans isComputed
  | computed reaches' isComputed' value =>
    rcases reaches.unique reaches' with ⟨rfl, _, rfl⟩
    cases isComputed.symm.trans isComputed'
    exact target.only x u (fun isInteger => admissible (sameSort.trans isInteger)) value

/-! ## From the reference to the expression that is solved for it -/

/-- Only integers are added up. -/
theorem Solution.eq_of_sort {result body : Expression}
    (solution : Solution e r inner result body) (wellTyped : WellTyped p none e)
    (complete : Complete p e) (other : sort? e ≠ some .integer) :
    e = .fieldReference r inner ∧ body = result := by
  cases solution with
  | here => exact ⟨rfl, rfl⟩
  | undo undoes => exact (other (undoes.parts wellTyped complete).2.1).elim

theorem Inverse.restores (inverse : Inverse p here e (.fieldReference r inner) v m)
    (sameSort : sort? (.fieldReference r inner) = sort? e)
    (otherwise : sort? e ≠ some .integer → e = .fieldReference r inner ∧ v = m)
    (readable : Readable p here e) (target : Restores p ρ here (.fieldReference r inner) m place w)
    : Restores p ρ here e v place w := by
  have only (x u : Constant) (admissible : sort? e = some .integer →
      Admissible p (ρ.store place x)) (evaluates : Evaluates p (ρ.store place x) here e u) :
      u = v ↔ x = w := by
    rcases inverse.reads _ u admissible evaluates with ⟨c, reference, same⟩
    rw [same]
    exact target.only x c (fun isInteger => admissible (sameSort.symm.trans isInteger)) reference
  have admissible (isScalar : sort? e = some .integer ∨ sort? e = some .boolean) :
      Admissible p (ρ.store place w) := target.admissible (sameSort.symm ▸ isScalar)
  refine ⟨?_, only, admissible⟩
  by_cases isInteger : sort? e = some .integer
  · rcases readable _ (admissible (.inl isInteger)) with ⟨u, evaluates⟩
    rwa [(only w u (fun _ => admissible (.inl isInteger)) evaluates).2 rfl] at evaluates
  · rcases otherwise isInteger with ⟨rfl, rfl⟩
    exact target.evaluates

end Restores

/-! ## All steps -/

section Chain

variable {p s : Program} {ρ : Valuation} {here there : Place} {a b : Address} {f : Field}
  {e body : Expression} {v u : Constant} {r : FieldReference} {m : WriteMethod}

/-- The field that a reference is to, before and after it is known how fields are written. -/
structure TargetField (p s : Program) (r : FieldReference) (b : Address) (name : CanonicalName)
    (g g' : Field) : Prop where
  ends : ∃ last, r.path.getLast? = some last ∧ last.Names p name (.field g) ∧
    last.Names s name (.field g')
  before : p.fieldAt? b = some g
  after : s.fieldAt? b = some g'
  sameVirtual : g.isVirtual = g'.isVirtual
  sameReads : g.readTransform = g'.readTransform

theorem Marking.targetField (marking : Marking p s) (targets : Targets p r b) :
    ∃ name g g', TargetField p s r b name g g' := by
  rcases targets with ⟨last, name, g, ends, isName, found⟩
  rcases marking.same.objects _ _ _ found with ⟨_, found', equal⟩
  rcases Object.field_of_unwritten equal with ⟨g', rfl, sameField⟩
  have sameVirtual := congrArg Field.isVirtual sameField.symm
  have sameReads := congrArg Field.readTransform sameField.symm
  exact ⟨name, g, g', ⟨last, ends, ⟨isName, b, found⟩, isName, b, found'⟩,
    Program.fieldAt?_eq_some.2 (Program.inner?_of_find found),
    Program.fieldAt?_eq_some.2 (Program.inner?_of_find found'), sameVirtual, sameReads⟩

theorem TargetField.reaches {name other : CanonicalName} {g g' : Field} {object : Object}
    (target : TargetField p s r b name g g') (same : SameReading p s)
    (reaches : r.Reaches p here there other object) :
    other = name ∧ object = .field g ∧ r.Reaches s here there name (.field g') := by
  rcases target.ends with ⟨last, ends, named, named'⟩
  rcases reaches with ⟨leads, _, ends', again⟩
  cases ends.symm.trans ends'
  rcases names_unique named again with ⟨rfl, rfl⟩
  exact ⟨rfl, rfl, same.leads leads, last, ends, named'⟩

theorem Carries.passes (carries : Carries p e r body m) (same : SameReading p s)
    (solved : SolvedFor e r body)
    (yields : Yields p { ρ with logicalValue := v } here body u) (r' : FieldReference)
    (c : Constant) : Passes s ρ here m v r' c ↔ r' = r ∧ c = u := by
  cases carries with
  | direct isReference =>
    have isWritten : u = v := by
      subst isReference
      rcases solved with ⟨_, sole, run⟩
      cases sole
      cases run
      exact (yields_writtenValue _ _ u).1 ((yields u).2 rfl)
    subst isWritten
    constructor
    · rintro ⟨⟩
      exact ⟨rfl, rfl⟩
    · rintro ⟨rfl, rfl⟩
      exact .direct
  | transform _ sameValue =>
    constructor
    · rintro ⟨⟩
      rename_i value
      exact ⟨rfl, (yields c).1 ((sameValue _ _ _).1 (same.symm.evaluates value))⟩
    · rintro ⟨rfl, rfl⟩
      exact .transform (same.evaluates ((sameValue _ _ _).2 ((yields _).2 rfl)))

theorem not_writes_physical {place : Place} {w : Constant} {value : Bool} :
    ¬ Writes s ρ here (.physical value) v place w := by
  rintro (⟨⟨⟩, _, _⟩ | ⟨⟨⟩, _, _, _⟩)

section Writes

variable {place : Place} {w : Constant} {name : CanonicalName} {g : Field}

/-- A field that is written in place of another is where the value goes if it is physical, and
passes the value on if it is virtual. -/
theorem writes_iff {m' : WriteMethod} (passes : ∀ r' c, Passes s ρ here m v r' c ↔ r' = r ∧ c = u)
    (reaches : r.Reaches s here there name (.field g)) (method : g.writeMethod = some m') :
    Writes s ρ here m v place w ↔
      (m' = .physical true ∧ place = there ++ [name] ∧ w = u) ∨ Writes s ρ there m' u place w := by
  constructor
  · rintro (⟨passed, reached, further⟩ | ⟨passed, reached, further, rest⟩)
    all_goals
      rcases (passes _ _).1 passed with ⟨rfl, rfl⟩
      rcases reaches.unique reached with ⟨rfl, rfl, same⟩
      cases same
      cases method.symm.trans further
    · exact .inl ⟨rfl, rfl, rfl⟩
    · exact .inr rest
  · rintro (⟨rfl, rfl, rfl⟩ | rest)
    · exact .last ((passes _ _).2 ⟨rfl, rfl⟩) reaches method
    · exact .onward ((passes _ _).2 ⟨rfl, rfl⟩) reaches method rest

end Writes

theorem Written.method (written : Written p s a) (there : s.fieldAt? a = some f) :
    (f.isVirtual = false → f.writeMethod = some (.physical true)) ∧
      (f.isVirtual = true → ∃ m, f.writeMethod = some m ∧ m ≠ .physical true) := by
  cases written with
  | physical there' isPhysical method =>
    cases there.symm.trans there'
    refine ⟨fun _ => method, fun isVirtual => ?_⟩
    rw [isPhysical] at isVirtual
    cases isVirtual
  | onward there' isVirtual _ _ method carries _ _ =>
    cases there.symm.trans there'
    refine ⟨fun isPhysical => ?_, fun _ => ⟨_, method, ?_⟩⟩
    · rw [isPhysical] at isVirtual
      cases isVirtual
    · rintro rfl
      cases carries

/-- An expression is solved for a reference, and the solution has a value. -/
structure Undone (p : Program) (ρ : Valuation) (here : Place) (e body : Expression)
    (r : FieldReference) (inner : Annotation) (v u : Constant) : Prop where
  yields : Yields p { ρ with logicalValue := v } here body u
  inverse : Inverse p here e (.fieldReference r inner) v u
  wellTyped : WellTyped p none (.fieldReference r inner)
  complete : Complete p (.fieldReference r inner)
  sameSort : sort? (.fieldReference r inner) = sort? e
  otherwise : sort? e ≠ some .integer → e = .fieldReference r inner ∧ v = u

theorem Solvable.undone (typed : AllTyped p) (solvable : Solvable p e)
    (solved : SolvedFor e r body) (readable : Readable p here e) (admissible : Admissible p ρ)
    (storable : Storable e v) : ∃ inner u, Undone p ρ here e body r inner v u := by
  rcases solvable.solution solved with ⟨inner, solution⟩
  rcases solution.reference solvable.wellTyped solvable.complete with
    ⟨wellTyped, complete, sameSort⟩
  have isInteger (sort : sort? e = some .integer) : ∃ n, v = .int n := by
    rcases integer_of_sort sort with ⟨bounds, hasType⟩
    rcases storable.number bounds hasType with ⟨n, isWritten, _⟩
    exact ⟨n, isWritten⟩
  let ρ' : Valuation := { ρ with logicalValue := v }
  have admissible' : Admissible p ρ' := ⟨admissible.flag, admissible.number⟩
  have written : Yields p ρ' here (writtenValue e.type) v := yields_writtenValue ρ' e.type
  rcases solution.inverse typed solvable.wellTyped solvable.complete solvable.plain readable
    isInteger admissible' written with ⟨u, yields, inverse⟩
  refine ⟨inner, u, yields, inverse, wellTyped, complete, sameSort, fun notInteger => ?_⟩
  rcases solution.eq_of_sort solvable.wellTyped solvable.complete notInteger with
    ⟨isReference, rfl⟩
  exact ⟨isReference, (yields v).1 ((written v).2 rfl)⟩

namespace Undone

variable {inner : Annotation}

/-- The value of the solution can be written to what has the type of the reference. -/
theorem storable {other : Expression} (undone : Undone p ρ here e body r inner v u)
    (otherSort : sort? (.fieldReference r inner) = sort? other)
    (otherType : ∀ bounds, inner.type = some (.integer bounds) →
      other.type = some (.integer bounds)) (storable : Storable e v) : Storable other u := by
  constructor
  · intro bounds hasType
    have isInteger : sort? e = some .integer := by
      rw [← undone.sameSort, otherSort, sort?_of_type hasType]
      rfl
    rcases integer_of_sort isInteger with ⟨own, ownType⟩
    rcases storable.number own ownType with ⟨n, isWritten, between⟩
    rcases undone.inverse.between own n ownType isWritten between with
      ⟨refBounds, n', refType, isPassed, inRange⟩
    cases (otherType refBounds refType).symm.trans hasType
    exact ⟨n', isPassed, inRange⟩
  · intro isBoolean
    have sort : sort? e = some .boolean := by rw [← undone.sameSort, otherSort, isBoolean]
    rcases undone.otherwise (by simp [sort]) with ⟨_, rfl⟩
    exact storable.truth sort

theorem reference (undone : Undone p ρ here e body r inner v u) (readable : Readable p here e) :
    Readable p here (.fieldReference r inner) := by
  intro ρ admissible
  rcases readable ρ admissible with ⟨c, evaluates⟩
  rcases undone.inverse.reads ρ c (fun _ => admissible) evaluates with ⟨c', reference, _⟩
  exact ⟨c', reference⟩

end Undone

theorem Readable.computed {inner : Annotation} {name : CanonicalName} {object : Object}
    {other : Expression} (readable : Readable p here (.fieldReference r inner))
    (reaches : r.Reaches p here there name object) (isComputed : object.computed? = some other) :
    Readable p there other := by
  intro ρ admissible
  rcases readable ρ admissible with ⟨c, reference⟩
  cases reference with
  | stored again isStored =>
    rcases reaches.unique again with ⟨_, _, rfl⟩
    cases (computed?_of_isStored isStored).symm.trans isComputed
  | computed again isComputed' value =>
    rcases reaches.unique again with ⟨rfl, _, rfl⟩
    cases isComputed.symm.trans isComputed'
    exact ⟨c, value⟩

theorem Written.restores (typed : AllTyped p)
    (solvable : ∀ a f e, p.fieldAt? a = some f → f.readTransform = some e → Solvable p e)
    (marking : Marking p s) (written : Written p s a) (there : s.fieldAt? a = some f)
    (isVirtual : f.isVirtual = true) (reads : f.readTransform = some e)
    (method : f.writeMethod = some m) (readable : Readable p here e)
    (admissible : Admissible p ρ) (storable : Storable e v) :
    ∃ place w, (∀ place' w', Writes s ρ here m v place' w' ↔ place' = place ∧ w' = w) ∧
      Restores p ρ here e v place w := by
  induction written generalizing f e m here v with
  | physical there' isPhysical _ =>
    cases there.symm.trans there'
    rw [isPhysical] at isVirtual
    cases isVirtual
  | @onward a b f' e' body r m' there' _ reads' solved method' carries targets rest ih =>
    obtain rfl : f' = f := Option.some.inj (there'.symm.trans there)
    obtain rfl : e' = e := Option.some.inj (reads'.symm.trans reads)
    obtain rfl : m' = m := Option.some.inj (method'.symm.trans method)
    rcases marking.original there with ⟨_, before, _, sameReads⟩
    rcases (solvable a _ e' before (sameReads.trans reads)).undone typed solved readable admissible
      storable with ⟨_, u, undone⟩
    rcases marking.targetField targets with ⟨_, g, g', target⟩
    rcases target.ends with ⟨_, ends, named, _⟩
    have passes := carries.passes marking.same solved undone.yields
    have refReadable := undone.reference readable
    rcases refReadable ρ admissible with ⟨c, reference⟩
    cases reference with
    | stored reaches isStored =>
      rcases target.reaches marking.same reaches with ⟨rfl, rfl, reaches'⟩
      have isPhysical : g'.isVirtual = false := by
        simpa [Object.isStored, target.sameVirtual] using isStored
      have method := (rest.method target.after).1 isPhysical
      refine ⟨_, u, fun place' w' => (writes_iff passes reaches' method).trans
        ((or_iff_left not_writes_physical).trans (and_iff_right rfl)), ?_⟩
      exact undone.inverse.restores undone.sameSort undone.otherwise readable
        (restores_stored admissible undone.wellTyped undone.complete reaches isStored
          (undone.storable rfl (fun _ isInteger => isInteger) storable))
    | @computed _ _ _ _ _ _ other _ reaches isComputed =>
      rcases target.reaches marking.same reaches with ⟨rfl, rfl, reaches'⟩
      rcases type_of_computed undone.wellTyped undone.complete ends named isComputed with
        ⟨otherSort, otherType⟩
      have isComputed' : g'.isVirtual = true ∧ g'.readTransform = some other := by
        simpa [Object.computed?, target.sameVirtual, target.sameReads] using isComputed
      rcases (rest.method target.after).2 isComputed'.1 with ⟨m', method', notPhysical⟩
      rcases ih target.after isComputed'.1 isComputed'.2 method'
        (refReadable.computed reaches isComputed)
        (undone.storable otherSort otherType storable) with ⟨place, w, onward, restores⟩
      refine ⟨place, w, fun place' w' => ?_, ?_⟩
      · rw [writes_iff passes reaches' method', or_iff_right (notPhysical ·.1), onward]
      · exact undone.inverse.restores undone.sameSort undone.otherwise readable
          (restores_computed otherSort reaches isComputed restores)

theorem Written.endsPhysical (marking : Marking p s) (written : Written p s a)
    (there : s.fieldAt? a = some f) (isVirtual : f.isVirtual = true)
    (method : f.writeMethod = some m) : EndsPhysical s m := by
  induction written generalizing f m with
  | physical there' isPhysical _ =>
    cases there.symm.trans there'
    rw [isPhysical] at isVirtual
    cases isVirtual
  | @onward _ b f' _ _ r m' there' _ _ _ method' carries targets rest ih =>
    obtain rfl : f' = f := Option.some.inj (there'.symm.trans there)
    obtain rfl : m' = m := Option.some.inj (method'.symm.trans method)
    have destination : destination? m' = some r := by
      cases carries <;> rfl
    rcases marking.targetField targets with ⟨_, g, g', target⟩
    rcases target.ends with ⟨last, ends, _, named⟩
    cases virtual : g'.isVirtual with
    | false =>
      exact .last destination ends named virtual ((rest.method target.after).1 virtual)
    | true =>
      rcases (rest.method target.after).2 virtual with ⟨m', further, _⟩
      exact .onward destination ends named virtual further (ih target.after virtual further)

end Chain

/-! ## The whole program -/

/-- An expression without words that depend on where they are used, and with all truth values
written out. -/
def Explicit (e : Expression) : Prop :=
  ∀ part, Inside e part → (∀ r note, part ≠ .builtinReference r note) ∧
    ∀ b note, part = .booleanConstant b note → b.value.isSome

theorem Explicit.function {operator : Option Operator} {args : List Expression}
    {word : Option Word} {location : Option Location} {note : Annotation}
    (each : ∀ arg ∈ args, Explicit arg) :
    Explicit (.function operator args word location note) := by
  intro part inside
  cases inside with
  | here => exact ⟨fun _ _ => Expression.noConfusion, fun _ _ => Expression.noConfusion⟩
  | argument member inner => exact each _ member part inner

/-- The expressions of the virtual fields of an accepted program can be solved. -/
theorem solvable_of_accepted {p q : Program} (computed : Computed p)
    (accepted : Constraint.check p = .ok (q, []))
    (explicit : ∀ a f e, p.fieldAt? a = some f → f.readTransform = some e → Explicit e)
    (a : Address) (f : Field) (e : Expression) (there : p.fieldAt? a = some f)
    (reads : f.readTransform = some e) : Solvable p e := by
  have isExpression := expressionAt?_read f (Program.fieldAt?_eq_some.1 there) reads
  refine ⟨computed.wellTyped _ e isExpression, computed.complete _ e isExpression,
    fun part inside => ?_⟩
  rcases explicit a f e there reads part inside with ⟨noWord, written⟩
  cases part with
  | builtinReference r note => exact noWord r note rfl
  | booleanConstant b note => exact written b note rfl
  | constantReference =>
    exact Constraint.isConstant_of_check accepted isExpression inside
  | _ => trivial

theorem Restores.same {p s : Program} {ρ : Valuation} {here place : Place} {e : Expression}
    {v w : Constant} (restores : Restores p ρ here e v place w) (same : SameReading p s) :
    Restores s ρ here e v place w :=
  ⟨same.evaluates restores.evaluates,
    fun x u admissible evaluates => restores.only x u
      (fun isInteger => same.symm.admissible (admissible isInteger)) (same.symm.evaluates evaluates),
    fun isScalar => same.admissible (restores.admissible isScalar)⟩

/-- Once it is known how all fields of an accepted program are written, a virtual field that is
written through others is written through finitely many, the last of which is physical.  The value
that is then stored there makes the field have the value that was written, and no other does. -/
theorem write_inverts_read {p q s : Program} {groups : List MessageGroup} {a : Address}
    {f : Field} {e : Expression} {t : ExpressionType} {m : WriteMethod} (computed : Computed p)
    (accepted : Constraint.check p = .ok (q, []))
    (explicit : ∀ a f e, p.fieldAt? a = some f → f.readTransform = some e → Explicit e)
    (unmarked : Unmarked p) (run : setWriteMethods p = .ok (s, groups))
    (there : s.fieldAt? a = some f) (isVirtual : f.isVirtual = true)
    (reads : f.readTransform = some e) (hasType : e.type = some t)
    (method : f.writeMethod = some m)
    (through : (∃ r, m = .alias r) ∨ ∃ transform, m = .transform transform) :
    EndsPhysical s m ∧
      ∀ here ρ v, Readable s here e → Admissible s ρ → Within t v →
        ∃ place w, (∀ place' w', Writes s ρ here m v place' w' ↔ place' = place ∧ w' = w) ∧
          Restores s ρ here e v place w := by
  have solvable := solvable_of_accepted computed accepted explicit
  have marking := marking_of_setWriteMethods solvable unmarked run
  have written : Written p s a := by
    rcases marking.written a f there (by simp [method]) with readOnly | written
    · cases method.symm.trans readOnly
      rcases through with ⟨_, impossible⟩ | ⟨_, impossible⟩ <;> cases impossible
    · exact written
  refine ⟨written.endsPhysical marking there isVirtual method, ?_⟩
  intro here ρ v readable admissible within
  have readable' : Readable p here e := by
    intro ρ admissible
    rcases readable ρ (marking.same.admissible admissible) with ⟨c, evaluates⟩
    exact ⟨c, marking.same.symm.evaluates evaluates⟩
  rcases written.restores computed.wellTyped solvable marking there isVirtual reads method readable'
    (marking.same.symm.admissible admissible) (storable_of_within hasType within) with
    ⟨place, w, writes, restores⟩
  exact ⟨place, w, writes, restores.same marking.same⟩

/-! ### What is left of 300 -/

namespace Sample

open Constraint.Sample
open Bounds.Sample (member memberName number counter ofByte ofSum)

def target (name : String) : FieldReference :=
  { path := [{ canonicalName := some (memberName name) }] }

/-- The value that is written less ten. -/
def tenLess : Expression :=
  .function (some .subtraction) [writtenValue (some ofSum), knownNumber 10] none none
    { type := some ofByte }

/-- The value that is written taken from 300. -/
def mirror : Expression :=
  .function (some .subtraction) [knownNumber 300, writtenValue (some ofDifference)] none none
    { type := some ofSum }

def shiftedField : Field :=
  { computedField "shifted" tenMore always with
    writeMethod := some (.transform ⟨some tenLess, some (target "counter")⟩) }

def mirroredField : Field :=
  { computedField "mirrored" remaining always with
    writeMethod := some (.transform ⟨some mirror, some (target "shifted")⟩) }

def counterField : Field :=
  { byteField with writeMethod := some (.physical true) }

/-- The structure with a way to write each field. -/
def marked : Program where
  modules := [{
    fileName := some "sample"
    types := [{
      name := some { name := some { text := some "Frame" } }
      unit := some .byte
      body := .record { fields := [counterField, shiftedField, mirroredField] } }] }, builtIn]

theorem marks_finished : setWriteMethods finished = .ok (marked, []) := by
  simp only [setWriteMethods, Bounds.chainDepth, Program.visits, Node.walk_eq_search]
  cbv

theorem fields_finished :
    (Node.program finished).contents.filterMap Node.field? =
      [byteField, computedField "shifted" tenMore always,
        computedField "mirrored" remaining always] := by
  cbv

theorem field_finished {a : Address} {f : Field} (there : finished.fieldAt? a = some f) :
    f = byteField ∨ f = computedField "shifted" tenMore always ∨
      f = computedField "mirrored" remaining always := by
  have isField := mem_filterMap.2 ⟨_, Node.mem_contents_of_inner?
    (Program.fieldAt?_eq_some.1 there), (rfl : Node.field? (.field f) = some f)⟩
  rw [fields_finished] at isField
  simpa only [mem_cons, not_mem_nil, or_false] using isField

theorem fields_marked :
    (Node.program marked).contents.filterMap Node.field? =
      [counterField, shiftedField, mirroredField] := by
  cbv

theorem parameters_marked : (Node.program marked).contents.filterMap Node.parameter? = [] := by
  cbv

theorem explicit_finished (a : Address) (f : Field) (e : Expression)
    (there : finished.fieldAt? a = some f) (reads : f.readTransform = some e) : Explicit e := by
  have number (n : Int) : Explicit (knownNumber n) := by
    rintro _ ⟨⟩
    exact ⟨fun _ _ => Expression.noConfusion, fun _ _ => Expression.noConfusion⟩
  have reference (name : String) (t : ExpressionType) : Explicit (member name t) := by
    rintro _ ⟨⟩
    exact ⟨fun _ _ => Expression.noConfusion, fun _ _ => Expression.noConfusion⟩
  have isField := field_finished there
  rcases isField with rfl | rfl | rfl <;> cases reads
  · refine .function fun arg isArgument => ?_
    rcases mem_pair.1 isArgument with rfl | rfl
    · exact reference _ _
    · exact number 10
  · refine .function fun arg isArgument => ?_
    rcases mem_pair.1 isArgument with rfl | rfl
    · exact number 300
    · exact reference _ _

theorem unmarked_finished : Unmarked finished := by
  intro a f there
  have isField := field_finished there
  rcases isField with rfl | rfl | rfl <;> rfl

theorem admissible_marked : Admissible marked zeroes := by
  refine admissible_zeroes (fun f isField => ?_) parameters_marked
  rw [fields_marked] at isField
  simp only [mem_cons, not_mem_nil, or_false] at isField
  rcases isField with rfl | rfl | rfl <;> rfl

theorem reaches_counter :
    (target "counter").Reaches marked [] [] (memberName "counter") (.field counterField) :=
  ⟨.here, _, rfl, rfl, [⟨"module", 0⟩, ⟨"type", 0⟩, ⟨"structure", 0⟩, ⟨"field", 0⟩], by cbv⟩

theorem reaches_shifted :
    (target "shifted").Reaches marked [] [] (memberName "shifted") (.field shiftedField) :=
  ⟨.here, _, rfl, rfl, [⟨"module", 0⟩, ⟨"type", 0⟩, ⟨"structure", 0⟩, ⟨"field", 1⟩], by cbv⟩

theorem readable_remaining : Readable marked [] remaining := by
  intro ρ admissible
  rcases reaches_counter.ends with ⟨_, _, _, address, found⟩
  rcases admissible.number [] (memberName "counter") address (.field counterField) found rfl rfl with
    ⟨n, isNumber, _⟩
  have counts : Evaluates marked ρ [] (member "counter" ofByte) (.int n) :=
    isNumber ▸ .stored reaches_counter rfl
  have shifts : Evaluates marked ρ [] tenMore (.int (n + 10)) :=
    evaluates_pair counts (.number rfl rfl) rfl
  exact ⟨.int (300 - (n + 10)),
    evaluates_pair (.number rfl rfl) (.computed reaches_shifted rfl shifts) rfl⟩

end Sample

/-- Writing 35 where 300 less ten more than a byte is read stores 255 in the byte. -/
theorem write_inverts_read_mirrored :
    setWriteMethods Constraint.Sample.finished = .ok (Sample.marked, []) ∧
      Writes Sample.marked zeroes []
        (.transform ⟨some Sample.mirror, some (Sample.target "shifted")⟩) (.int 35)
        [Bounds.Sample.memberName "counter"] (.int 255) ∧
      Restores Sample.marked zeroes [] Constraint.Sample.remaining (.int 35)
        [Bounds.Sample.memberName "counter"] (.int 255) := by
  have there : Sample.marked.fieldAt?
      [⟨"module", 0⟩, ⟨"type", 0⟩, ⟨"structure", 0⟩, ⟨"field", 2⟩] = some Sample.mirroredField := by
    cbv
  have within : Within Constraint.Sample.ofDifference (.int 35) :=
    ⟨atLeast_of_finite rfl (by decide), atMost_of_finite rfl (by decide),
      Congruence.holds_of_dvd rfl rfl (one_dvd _)⟩
  have writes : Writes Sample.marked zeroes []
      (.transform ⟨some Sample.mirror, some (Sample.target "shifted")⟩) (.int 35)
      [Bounds.Sample.memberName "counter"] (.int 255) :=
    .onward (.transform (evaluates_pair (.number rfl rfl) (.logicalValue ⟨_, rfl, rfl⟩) rfl))
      Sample.reaches_shifted rfl
      (.last (.transform (evaluates_pair (.logicalValue ⟨_, rfl, rfl⟩) (.number rfl rfl) rfl))
        Sample.reaches_counter rfl)
  rcases (write_inverts_read Constraint.Sample.computed_finished
    Constraint.Sample.accepted_finished Sample.explicit_finished Sample.unmarked_finished
    Sample.marks_finished there rfl rfl rfl rfl (.inr ⟨_, rfl⟩)).2 [] zeroes (.int 35)
    Sample.readable_remaining Sample.admissible_marked within with ⟨_, w, only, restores⟩
  rcases (only _ _).1 writes with ⟨rfl, rfl⟩
  exact ⟨Sample.marks_finished, writes, restores⟩

end BinaryLayout.Writing
