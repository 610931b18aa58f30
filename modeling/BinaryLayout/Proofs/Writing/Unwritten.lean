import BinaryLayout.Proofs.Bounds.Physical
import BinaryLayout.Proofs.IR.Walk

/-!
# What reading does not depend on

Programs that differ only in how their fields are written give the same meaning to names.  Main
statements: setting how one field is written leads to such a program, and expressions have the
same values in both.
-/

namespace BinaryLayout

open IR Program

namespace IR

/-- A field without the way it is written. -/
def Field.unwritten (f : Field) : Field :=
  { f with writeMethod := none }

/-- What reading depends on in an object. -/
def Object.unwritten : Object → Object
  | .field f => .field f.unwritten
  | .definition t => .definition t.skeleton
  | .moduleFile m => .moduleFile m.skeleton
  | object => object

def Program.fieldAt? (p : Program) (a : Address) : Option Field :=
  ((Node.program p).inner? a).bind Node.field?

theorem Program.fieldAt?_eq_some {p : Program} {a : Address} {f : Field} :
    p.fieldAt? a = some f ↔ (Node.program p).inner? a = some (.field f) := by
  rw [fieldAt?, Option.bind_eq_some_iff]
  constructor
  · rintro ⟨n, there, isField⟩
    cases n <;> cases isField
    exact there
  · exact fun there => ⟨_, there, rfl⟩

end IR

/-- Two programs differ at most in how fields are written. -/
structure SameReading (p q : Program) : Prop where
  skeleton : q.skeleton = p.skeleton
  fields : ∀ a, (q.fieldAt? a).map Field.unwritten = (p.fieldAt? a).map Field.unwritten
  objects : ∀ name address object, p.find name = .ok ⟨address, object⟩ →
    ∃ object', q.find name = .ok ⟨address, object'⟩ ∧ object'.unwritten = object.unwritten

theorem SameReading.refl (p : Program) : SameReading p p :=
  ⟨rfl, fun _ => rfl, fun _ _ object found => ⟨object, found, rfl⟩⟩

theorem SameReading.trans {p q s : Program} (first : SameReading p q) (second : SameReading q s) :
    SameReading p s := by
  refine ⟨second.skeleton.trans first.skeleton,
    fun a => (second.fields a).trans (first.fields a), fun name address object found => ?_⟩
  rcases first.objects name address object found with ⟨object', found', same⟩
  rcases second.objects name address object' found' with ⟨object'', found'', same'⟩
  exact ⟨object'', found'', same'.trans same⟩

theorem SameReading.symm {p q : Program} (same : SameReading p q) : SameReading q p := by
  refine ⟨same.skeleton.symm, fun a => (same.fields a).symm, fun name address object found => ?_⟩
  rcases find_of_skeleton_eq same.skeleton found with ⟨⟨_, object'⟩, found', rfl, _⟩
  rcases same.objects name _ object' found' with ⟨_, again, equal⟩
  cases found.symm.trans again
  exact ⟨object', found', equal.symm⟩

/-! ## Setting how a field is written -/

section Put

variable {p : Program} {a b : Address} {f : Field} {n m : Node}

theorem field_cannot_hold :
    (∀ k ∈ Kind.field.below, ∀ other ∈ [Kind.field, .enumValue, .runtimeParameter],
      k.canHold other = false) ∧
      (∀ k ∈ Kind.enumValue.below, k.canHold .field = false) ∧
      ∀ k ∈ Kind.runtimeParameter.below, k.canHold .field = false := by
  decide +kernel

theorem field?_eq_none (other : n.kind ≠ .field) : n.field? = none := by
  cases n with
  | field f => exact (other rfl).elim
  | _ => rfl

theorem fieldAt?_put (there : p.fieldAt? a = some f) (f' : Field) (b : Address) :
    (p.put a (.field f')).fieldAt? b = if b = a then some f' else p.fieldAt? b := by
  have found := fieldAt?_eq_some.1 there
  have same : (Node.field f').kind = (Node.field f).kind := by rfl
  rw [Program.fieldAt?, program_put found same]
  by_cases here : b = a
  · subst here
    have put := Node.inner?_update_append found rfl same []
    rw [List.append_nil] at put
    rw [put, if_pos rfl]
    rfl
  · rw [if_neg here, Program.fieldAt?]
    by_cases above : a <+: b
    · -- below a field there is no other
      have none_below (g : Field) {s : Step} {rest : Address} :
          ((Node.field g).inner? (s :: rest)).bind Node.field? = none := by
        rw [Option.bind_eq_none_iff]
        intro m isBelow
        apply field?_eq_none
        intro isField
        have here : (Node.field g).inner? [] = some (.field g) := rfl
        refine Node.not_prefix_of_below here isBelow (by simp) (fun k inBelow => ?_)
          List.nil_prefix
        rw [isField]
        exact field_cannot_hold.1 k inBelow .field (by simp)
      rcases above with ⟨_ | ⟨s, rest⟩, rfl⟩
      · exact (here (List.append_nil a)).elim
      · rw [Node.inner?_update_append found rfl same, Node.inner?_append, found, Option.bind_some,
          none_below, none_below]
    · by_cases below : b <+: a
      · -- above a field there is no other
        have kinds := Node.kind_inner?_update found rfl same below
        have notField (n : Node) (isNode : (Node.program p).inner? b = some n) :
            n.kind ≠ .field := by
          intro isField
          refine Node.not_prefix_of_below isNode found (Ne.symm here) (fun k inBelow => ?_) below
          rw [isField] at inBelow
          exact field_cannot_hold.1 k inBelow .field (by simp)
        cases isNode : (Node.program p).inner? b with
        | none =>
          rw [isNode] at kinds
          rw [Option.map_eq_none_iff.1 kinds]
        | some n =>
          rw [isNode] at kinds
          rcases Option.map_eq_some_iff.1 kinds with ⟨n', isNode', sameKind⟩
          rw [isNode', Option.bind_some, Option.bind_some, field?_eq_none (notField n isNode),
            field?_eq_none (sameKind ▸ notField n isNode)]
      · rw [Node.inner?_update_of_apart found rfl same above below]

/-- Values of enumerations and parameters stay as they are when a field is replaced. -/
theorem inner?_put_of_kind (there : p.fieldAt? a = some f) (f' : Field)
    (isNode : (Node.program p).inner? b = some n)
    (kinds : n.kind = .enumValue ∨ n.kind = .runtimeParameter) :
    (Node.program (p.put a (.field f'))).inner? b = some n := by
  have found := fieldAt?_eq_some.1 there
  have same : (Node.field f').kind = (Node.field f).kind := by rfl
  have other : b ≠ a := by
    rintro rfl
    rw [isNode] at found
    cases found
    rcases kinds with isKind | isKind <;> cases isKind
  rw [program_put found same, Node.inner?_update_of_apart found rfl same ?_ ?_, isNode]
  · refine Node.not_prefix_of_below found isNode other fun k inBelow => ?_
    exact field_cannot_hold.1 k inBelow n.kind
      (by rcases kinds with isKind | isKind <;> simp [isKind])
  · refine Node.not_prefix_of_below isNode found (Ne.symm other) fun k inBelow => ?_
    rcases kinds with isKind | isKind
    · exact field_cannot_hold.2.1 k (isKind ▸ inBelow)
    · exact field_cannot_hold.2.2 k (isKind ▸ inBelow)

/-- Setting how a field is written does not change how anything is read. -/
theorem sameReading_put (there : p.fieldAt? a = some f) (m : Option WriteMethod) :
    SameReading p (p.put a (.field { f with writeMethod := m })) := by
  have found := fieldAt?_eq_some.1 there
  have skeleton : (p.put a (.field { f with writeMethod := m })).skeleton = p.skeleton :=
    skeleton_put found rfl rfl rfl
  have fields (b : Address) :
      ((p.put a (.field { f with writeMethod := m })).fieldAt? b).map Field.unwritten =
        (p.fieldAt? b).map Field.unwritten := by
    rw [fieldAt?_put there]
    split
    · rename_i here
      rw [here, there]
      rfl
    · rfl
  refine ⟨skeleton, fields, fun name address object isFound => ?_⟩
  rcases find_of_skeleton_eq skeleton.symm isFound with
    ⟨⟨_, object'⟩, isFound', sameAddress, sameSkeleton⟩
  cases sameAddress
  have here := inner?_of_find isFound
  have here' := inner?_of_find isFound'
  refine ⟨object', isFound', ?_⟩
  cases object with
  | moduleFile m =>
    cases object' with
    | moduleFile m' => exact sameSkeleton
    | _ => cases sameSkeleton
  | definition t =>
    cases object' with
    | definition t' => exact sameSkeleton
    | _ => cases sameSkeleton
  | field g =>
    cases object' with
    | field g' =>
      have same := fields address
      rw [fieldAt?_eq_some.2 here, fieldAt?_eq_some.2 here'] at same
      exact congrArg Object.field (Option.some.inj same)
    | _ => cases sameSkeleton
  | enumValue v =>
    cases object' with
    | enumValue v' =>
      cases here'.symm.trans (inner?_put_of_kind there _ here (.inl rfl))
      rfl
    | _ => cases sameSkeleton
  | parameter q =>
    cases object' with
    | parameter q' =>
      cases here'.symm.trans (inner?_put_of_kind there _ here (.inr rfl))
      rfl
    | _ => cases sameSkeleton

end Put

/-! ## The same values -/

namespace IR.Object

variable (object : Object)

theorem isStored_unwritten : object.unwritten.isStored = object.isStored := by
  cases object <;> rfl

theorem computed?_unwritten : object.unwritten.computed? = object.computed? := by
  cases object <;> rfl

theorem fixed?_unwritten : object.unwritten.fixed? = object.fixed? := by
  cases object <;> rfl

theorem condition?_unwritten : object.unwritten.condition? = object.condition? := by
  cases object <;> rfl

theorem physicalType?_unwritten : object.unwritten.physicalType? = object.physicalType? := by
  cases object <;> rfl

theorem typeName?_unwritten : object.unwritten.typeName? = object.typeName? := by
  rw [typeName?, physicalType?_unwritten]
  rfl

theorem isFlag_unwritten : object.unwritten.isFlag = object.isFlag := by
  rw [isFlag, typeName?_unwritten]
  rfl

/-- Objects that reading cannot tell apart look the same to whatever ignores how fields are
written. -/
theorem eq_of_unwritten {α : Type} {view : Object → α} {object object' : Object}
    (blind : ∀ object, view object.unwritten = view object)
    (same : object'.unwritten = object.unwritten) : view object' = view object := by
  rw [← blind object', same, blind object]

theorem field_of_unwritten {object : Object} {f : Field}
    (same : object.unwritten = (Object.field f).unwritten) :
    ∃ g, object = .field g ∧ g.unwritten = f.unwritten := by
  cases object with
  | field g => exact ⟨g, rfl, Object.field.inj same⟩
  | _ => cases same

end IR.Object

section Same

variable {p q : Program} {ρ : Valuation} {name : CanonicalName} {here there : Place}

theorem SameReading.names {r : Reference} {object : Object} (same : SameReading p q)
    (named : r.Names p name object) :
    ∃ object', r.Names q name object' ∧ object'.unwritten = object.unwritten := by
  rcases named with ⟨nameIs, address, found⟩
  rcases same.objects name address object found with ⟨object', found', equal⟩
  exact ⟨object', ⟨nameIs, address, found'⟩, equal⟩

theorem SameReading.leads {path : List Reference} (same : SameReading p q)
    (leads : Leads p here path there) : Leads q here path there := by
  induction leads with
  | here => exact .here
  | into named isStored _ ih =>
    rcases same.names named with ⟨object', named', equal⟩
    exact .into named' ((Object.eq_of_unwritten Object.isStored_unwritten equal).trans isStored) ih
  | through named isAlias _ _ inAside ih =>
    rcases same.names named with ⟨object', named', equal⟩
    exact .through named'
      ((Object.eq_of_unwritten Object.computed?_unwritten equal).trans isAlias) inAside ih

theorem SameReading.reaches {r : FieldReference} {object : Object} (same : SameReading p q)
    (reaches : r.Reaches p here there name object) :
    ∃ object', r.Reaches q here there name object' ∧ object'.unwritten = object.unwritten := by
  rcases reaches with ⟨leads, last, ends, named⟩
  rcases same.names named with ⟨object', named', equal⟩
  exact ⟨object', ⟨same.leads leads, last, ends, named'⟩, equal⟩

theorem SameReading.evaluates {here : Place} {e : Expression} {v : Constant}
    (same : SameReading p q) (evaluates : Evaluates p ρ here e v) : Evaluates q ρ here e v := by
  induction evaluates with
  | number written denotes => exact .number written denotes
  | truth written => exact .truth written
  | logicalValue isWord => exact .logicalValue isWord
  | staticSize isWord => exact .staticSize isWord
  | isStaticallySized isWord => exact .isStaticallySized isWord
  | fixed named isFixed value ih =>
    rcases same.names named with ⟨object', named', equal⟩
    exact .fixed named' ((Object.eq_of_unwritten Object.fixed?_unwritten equal).trans isFixed) ih
  | stored reaches isStored =>
    rcases same.reaches reaches with ⟨object', reaches', equal⟩
    exact .stored reaches' ((Object.eq_of_unwritten Object.isStored_unwritten equal).trans isStored)
  | computed reaches isComputed value ih =>
    rcases same.reaches reaches with ⟨object', reaches', equal⟩
    exact .computed reaches'
      ((Object.eq_of_unwritten Object.computed?_unwritten equal).trans isComputed) ih
  | operation sameLength _ applied ih =>
    exact .operation sameLength ih applied
  | allTrue _ ih => exact .allTrue ih
  | oneFalse member _ ih => exact .oneFalse member ih
  | allFalse _ ih => exact .allFalse ih
  | oneTrue member _ ih => exact .oneTrue member ih
  | choice _ _ inCondition ih => exact .choice inCondition ih
  | presence reaches conditional value ih =>
    rcases same.reaches reaches with ⟨object', reaches', equal⟩
    exact .presence reaches'
      ((Object.eq_of_unwritten Object.condition?_unwritten equal).trans conditional) ih
  | upperBound known bounded denotes => exact .upperBound known bounded denotes
  | lowerBound known bounded denotes => exact .lowerBound known bounded denotes

theorem SameReading.hasSize {object object' : Object} {size : Int} (same : SameReading p q)
    (equal : object'.unwritten = object.unwritten) (hasSize : HasSize p name object size) :
    HasSize q name object' size := by
  cases hasSize with
  | declared isType sized constant =>
    exact .declared
      ((Object.eq_of_unwritten Object.physicalType?_unwritten equal).trans isType) sized constant
  | placed isField isType unsized isPlaced length constant around counted =>
    subst isField
    rcases Object.field_of_unwritten equal with ⟨g, rfl, sameField⟩
    have sameType := congrArg Field.type sameField
    have samePlace := congrArg Field.placement sameField
    rcases findParent_of_skeleton_eq same.skeleton.symm around with
      ⟨⟨_, outer⟩, around', _, sameOuter⟩
    cases outer with
    | definition t =>
      have sameUnit := congrArg TypeDefinition.unit (Object.definition.inj sameOuter)
      rw [TypeDefinition.unit_skeleton, TypeDefinition.unit_skeleton] at sameUnit
      exact .placed rfl (sameType.trans isType) unsized (samePlace.trans isPlaced) length
        constant around' (sameUnit.trans counted)
    | _ => cases sameOuter

theorem SameReading.admissible (same : SameReading p q) (admissible : Admissible p ρ) :
    Admissible q ρ := by
  constructor
  all_goals
    intro place name address object found isStored isFlag
    rcases same.symm.objects name address object found with ⟨object', found', equal⟩
    rw [← Object.eq_of_unwritten Object.isStored_unwritten equal] at isStored
    rw [← Object.eq_of_unwritten Object.isFlag_unwritten equal] at isFlag
  · exact admissible.flag place name address object' found' isStored isFlag
  · rcases admissible.number place name address object' found' isStored isFlag with
      ⟨number, isNumber, hasRoom⟩
    refine ⟨number, isNumber, fun bits hasSize => ?_⟩
    rw [← Object.eq_of_unwritten Object.typeName?_unwritten equal]
    exact hasRoom bits (same.symm.hasSize equal hasSize)

end Same

end BinaryLayout
