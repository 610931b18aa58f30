import BinaryLayout.Proofs.Attributes.Verified
import BinaryLayout.Proofs.IR.Shape

/-!
# Byte orders

Main statement: once the attributes of a program are completed and found to agree with it, a field
has one byte order if its type is counted in another unit than the structure around it, and none
otherwise.  It is the written one, or else the innermost default around the field, or else `Null`,
which only fields and elements of one unit have.
-/

namespace BinaryLayout.Attributes

open IR Checked List

variable {p q s : Program} {v : Visit} {t t' : TypeDefinition} {f : Field} {a : Attribute}
  {attributes : List Attribute} {found result : Option Attribute} {before : List MessageGroup}
  {allowed : List Allowed} {context file : String} {x y : Visit × Field}

def isOrder (isDefault : Bool) (a : Attribute) : Bool :=
  keyOf a == ("byte_order", isDefault)

/-- The attributes that set a byte order and are no defaults. -/
def orders (attributes : List Attribute) : List Attribute :=
  attributes.filter fun a => isOrder false a && a.value.isSome

/-- The default for byte orders that is set directly in a node. -/
def defaultOrder? (n : Node) : Option Attribute :=
  ((defaultsIn n).filter (isOrder true)).getLast?

/-- The byte order of a field that does not set it: the innermost default around it, or none. -/
def inheritedOrder (around : List Node) (f : Field) : Attribute :=
  match around.findSome? defaultOrder? with
  | some a => { a with isDefault := some false }
  | none => stringAttribute "byte_order" "Null" f.location

/-- The byte order that a field has if it needs one. -/
def order (v : Visit) (f : Field) : Attribute :=
  (orders f.attributes).head?.getD (inheritedOrder v.ancestors f)

/-- A field has the byte order that it should have after the attributes of the program were
completed. -/
structure Ordered (q : Program) (x x' : Visit × Field) : Prop where
  address : x'.1.address = x.1.address
  agrees : ∃ t needed, x'.1.typeDefinition? = some t ∧ needsByteOrder q t x'.2 = .ok needed ∧
    orders x'.2.attributes = (if needed then [order x.1 x.2] else []) ∧
    (needed = true → ((order x.1 x.2).value.bind (·.string?)).bind (·.text) = some "Null" →
      mayLackByteOrder q t x'.2 = .ok true)

/-! ## Looking up attributes -/

theorem isOrder_eq {isDefault : Bool} {text : Option String}
    (named : requiredText a.name = .ok text) :
    isOrder isDefault a = (text == some "byte_order" && a.isDefault.getD false == isDefault) := by
  rcases bind_eq_ok.1 named with ⟨⟨spelled, _⟩, isWord, isText⟩
  cases isText
  rw [isOrder, keyOf, Failure.require_eq_ok.1 isWord]
  cases spelled <;> rfl

theorem values_of_findAttribute {value result : Option AttributeValue}
    (run : findAttribute "byte_order" attributes value = .ok result) :
    value.toList.map some ++ (orders attributes).map (·.value) = result.toList.map some := by
  induction attributes generalizing value with
  | nil =>
    cases run
    exact append_nil _
  | cons a rest ih =>
    rcases bind_eq_ok.1 run with ⟨text, named, run⟩
    have isHere := @isOrder_eq a false text named
    rw [orders, filter_cons, isHere]
    split at run
    · rename_i here
      rcases bind_eq_ok.1 run with ⟨_, isFirst, run⟩
      rw [Failure.ensure_eq_ok] at isFirst
      have here' : (text == some "byte_order" && a.isDefault.getD false == false) = true := by
        simpa using here
      rw [here', Option.isNone_iff_eq_none.1 isFirst, ← ih run]
      cases isValue : a.value <;> simp [isValue, orders]
    · rename_i other
      rw [if_neg (by simp_all)]
      exact ih run

theorem eq_of_lastDefault (run : lastDefault "byte_order" found attributes = .ok result) :
    result = ((attributes.filter (isOrder true)).getLast?).or found := by
  induction attributes generalizing found with
  | nil =>
    cases run
    rfl
  | cons a rest ih =>
    rcases bind_eq_ok.1 run with ⟨text, named, run⟩
    rw [filter_cons, @isOrder_eq a true text named]
    split at run
    · rename_i here
      rw [if_pos (by simpa [and_comm] using here), ih run, getLast?_cons]
      cases (rest.filter (isOrder true)).getLast? <;> rfl
    · rename_i other
      rw [if_neg (by simpa [and_comm] using other), ih run]

theorem eq_of_defaultFor (run : defaultFor "byte_order" v = .ok result) :
    result = ((v.node :: v.ancestors).findSome? defaultOrder?).map
      fun a => { a with isDefault := some false } := by
  rcases bind_eq_ok.1 run with ⟨inner, foldRun, ends⟩
  cases ends
  refine congrArg _ ?_
  clear run
  generalize v.node :: v.ancestors = nodes at foldRun
  -- The fold ends with the innermost node, so it is the last one that counts.
  induction nodes generalizing inner with
  | nil =>
    cases foldRun
    rfl
  | cons n rest ih =>
    rw [reverse_cons, foldlM_append] at foldRun
    rcases bind_eq_ok.1 foldRun with ⟨outer, outerRun, foldRun⟩
    rcases bind_eq_ok.1 foldRun with ⟨_, innerRun, ends⟩
    cases ends
    rw [eq_of_lastDefault innerRun, ih outer outerRun, findSome?_cons]
    cases isHere : defaultOrder? n <;> rw [← defaultOrder?, isHere] <;> rfl

/-! ## What is added to types and modules -/

/-- What of a node matters for the byte orders of the fields in it. -/
def orderLabel : Node → Node
  | .moduleFile m => .moduleFile { attributes := m.attributes.filter (isOrder true) }
  | .typeDefinition t => .typeDefinition { attributes := t.attributes.filter (isOrder true) }
  | .field f => .field f
  | _ => .compoundType

theorem defaultOrder?_orderLabel (n : Node) : defaultOrder? (orderLabel n) = defaultOrder? n := by
  cases n <;> simp [defaultOrder?, orderLabel, defaultsIn]

theorem isOwn_orderLabel : Node.IsOwn orderLabel .field := by
  intro n s c d member _ holds alike
  cases n with
  | moduleFile =>
    simp only [Node.children, mem_append, mem_childrenIn_iff, or_assoc] at member
    rcases member with ⟨_, _, rfl, _, rfl⟩ | ⟨_, _, rfl, _, rfl⟩ | ⟨_, _, rfl, _, rfl⟩ |
      ⟨_, _, rfl, _, rfl⟩
    all_goals first
      | rfl
      | exact absurd holds (by simp only [Node.kind]; decide +kernel)
  | typeDefinition t =>
    rcases t with ⟨body, _, _, _, _, _, _, _⟩
    simp only [Node.children, mem_append, mem_childIn_iff, mem_childrenIn_iff, or_assoc] at member
    rcases member with inBody | ⟨rfl, _, _, rfl⟩ | ⟨_, _, rfl, _, rfl⟩ | ⟨_, _, rfl, _, rfl⟩ |
      ⟨_, _, rfl, _, rfl⟩ | ⟨_, _, rfl, _, rfl⟩
    · cases body <;> first | (cases inBody; done) | cases mem_singleton.1 inBody
      have same := alike.kind
      all_goals cases d <;> first | (cases same; done) | rfl
    all_goals first
      | rfl
      | exact absurd holds (by simp only [Node.kind]; decide +kernel)
  | field f =>
    have isBelow := Node.kind_of_mem_children _ _ member
    have nothing : ∀ k ∈ Kind.field.below, k.canHold .field = false := by decide +kernel
    rw [nothing _ isBelow] at holds
    cases holds
  | _ =>
    simp only [Node.withChild]
    repeat' split
    all_goals rfl

theorem filter_of_made (made : a.isDefault = none) (attributes : List Attribute) :
    (attributes ++ [a]).filter (isOrder true) = attributes.filter (isOrder true) := by
  simp [filter_append, isOrder, keyOf, made]

theorem filter_attributes (attributes : List Attribute) :
    (childrenIn "attribute" .property 0 attributes).filter (·.2.kind.canHold .field) = [] := by
  have cannot : ¬ Kind.property.canHold .field = true := by decide +kernel
  exact filter_eq_nil_iff.2 (forall_childrenIn fun _ _ _ => cannot)

theorem shape_added (t : TypeDefinition) (made : a.isDefault = none) :
    (Node.typeDefinition { t with attributes := t.attributes ++ [a] }).shape orderLabel .field =
      (Node.typeDefinition t).shape orderLabel .field := by
  rw [Node.shape_eq, Node.shape_eq]
  simp only [orderLabel, filter_of_made made, Node.children, filter_append, filter_attributes]
  rfl

theorem shape_completeType (run : completeType t = .ok t') :
    (Node.typeDefinition t').shape orderLabel .field =
      (Node.typeDefinition t).shape orderLabel .field := by
  rw [completeType] at run
  split at run
  · rcases bind_eq_ok.1 run with ⟨_, _, run⟩
    split at run <;> cases run <;>
      simp only [Node.shape_eq _ _ (.typeDefinition _), Node.kind, orderLabel, Node.children]
  · rcases bind_eq_ok.1 run with ⟨_, _, run⟩
    dsimp only at run
    split at run
    all_goals
      rcases bind_eq_ok.1 run with ⟨_, ends, run⟩
      cases ends
      rcases bind_eq_ok.1 run with ⟨_, _, run⟩
      split at run
    · cases run
      rfl
    · rcases bind_eq_ok.1 run with ⟨_, _, ends⟩
      cases ends
      exact shape_added t rfl
    · cases run
      exact shape_added t rfl
    · rcases bind_eq_ok.1 run with ⟨_, _, ends⟩
      cases ends
      exact (shape_added _ rfl).trans (shape_added t rfl)
  · rcases bind_eq_ok.1 run with ⟨_, _, run⟩
    split at run
    · cases run
      rfl
    · rcases bind_eq_ok.1 run with ⟨_, _, run⟩
      split at run <;> cases run
      · rfl
      · exact shape_added t rfl
  · cases run
    rfl

theorem shape_changeTypes {k : Kind} (run : changeTypes p k completeType = .ok q) :
    (Node.program q).shape orderLabel .field = (Node.program p).shape orderLabel .field := by
  refine foldlM_preserves (fun s => (Node.program s).shape orderLabel .field = _) run rfl ?_
  intro v _ s s' same step
  dsimp only at step
  split at step
  · rename_i t isType
    rcases bind_eq_ok.1 step with ⟨t', isChanged, ends⟩
    cases ends
    rcases Option.bind_eq_some_iff.1 isType with ⟨n, there, isNode⟩
    cases n <;> cases isNode
    have holds : Kind.typeDefinition.canHold .field = true := by decide +kernel
    exact (Program.shape_put isOwn_orderLabel there rfl holds (shape_completeType isChanged)).trans
      same
  · cases step

theorem shape_completeModule {m m' : Module} (run : completeModule m = .ok m') :
    (Node.moduleFile m').shape orderLabel .field = (Node.moduleFile m).shape orderLabel .field := by
  rcases bind_eq_ok.1 run with ⟨_, _, run⟩
  split at run <;> cases run
  · rfl
  · have made : (stringAttribute "expected_back_ends" "cpp" m.location).isDefault = none := rfl
    rw [Node.shape_eq, Node.shape_eq]
    simp only [orderLabel, filter_of_made made, Node.children, filter_append, filter_attributes]
    rfl

theorem shape_completeModules {modules modules' : List Module}
    (run : modules.mapM completeModule = .ok modules') :
    (Node.program { modules := modules' }).shape orderLabel .field =
      (Node.program { modules := modules }).shape orderLabel .field := by
  have pairs := mapM_eq_ok.1 run
  rw [Node.shape_eq, Node.shape_eq]
  refine congrArg _ ?_
  simp only [Node.children]
  clear run
  generalize 0 = index
  induction pairs generalizing index with
  | nil => rfl
  | @cons m m' _ _ run _ ih =>
    have holds (m : Module) : (Node.moduleFile m).kind.canHold .field = true := by
      simp only [Node.kind]
      decide +kernel
    simp only [childrenIn, filter_cons, holds, if_true, map_cons, shape_completeModule run, ih]

/-! ## What is added to fields -/

/-- A label that tells nothing. -/
def bare (_ : Node) : Node :=
  .compoundType

theorem shape_field (f : Field) :
    (Node.field f).shape bare .field = .node .field .compoundType [] :=
  Node.shape_of_below (by simp only [Node.kind]; decide +kernel)

/-- A field as it was, or with the byte order for its place. -/
def Grown (p : Program) (y : Visit × Field) (g : Field) : Prop :=
  g = y.2 ∨ ∃ t a, byteOrderFor p y.1 t y.2 = .ok (some a) ∧
    g = { y.2 with attributes := y.2.attributes ++ [a] }

/-- The fields of a program stand where those of another do, and may have grown. -/
structure GrownFrom (p s : Program) : Prop where
  shape : (Node.program s).shape bare .field = (Node.program p).shape bare .field
  fields : ∀ z ∈ s.partsOf Node.field? [.field], ∃ y ∈ p.partsOf Node.field? [.field],
    y.1.address = z.1.address ∧ Grown p y z.2

theorem GrownFrom.put {y : Visit × Field} {g : Field} (grown : GrownFrom p s)
    (member : y ∈ p.partsOf Node.field? [.field]) (isGrown : Grown p y g) :
    GrownFrom p (s.put y.1.address (.field g)) := by
  rcases exists_left_of_mem (Program.forall₂_fields grown.shape) member with ⟨old, isOld, alike⟩
  have there := Program.inner?_of_partsOf isOld
  rw [Node.address_of_view alike] at there
  have isOwn : Node.IsOwn bare .field := fun _ _ _ _ => rfl
  have kind : (Node.field g).kind = (Node.field old.2).kind := rfl
  have shape := Program.shape_put isOwn (Node.at?_of_inner? there) rfl (Kind.canHold_self .field)
    ((shape_field g).trans (shape_field old.2).symm)
  refine ⟨shape.trans grown.shape, fun z isField => ?_⟩
  rcases exists_right_of_mem (Program.forall₂_fields shape) isField with ⟨x, isX, alike'⟩
  have there' := Program.inner?_of_partsOf isField
  rw [Program.program_put there kind, Node.address_of_view alike'] at there'
  rw [Node.address_of_view alike']
  by_cases same : x.1.address = y.1.address
  · have found := Node.inner?_update_append there rfl kind []
    rw [same] at there'
    rw [append_nil, there'] at found
    cases Node.field.inj (Option.some.inj found)
    exact ⟨y, member, same.symm, isGrown⟩
  · have before := Program.inner?_of_partsOf isX
    rw [Node.inner?_update_of_apart there rfl kind (Program.field_apart there before same)
      (Program.field_apart before there (Ne.symm same)), before] at there'
    rw [← Node.field.inj (Option.some.inj there')]
    exact grown.fields x isX

theorem grownFrom_completeByteOrders (run : completeByteOrders p = .ok q) : GrownFrom p q := by
  refine foldlM_preserves _ run ⟨rfl, fun z member => ⟨z, member, rfl, .inl rfl⟩⟩ ?_
  intro y member s s' grown step
  rcases bind_eq_ok.1 step with ⟨t, _, step⟩
  rcases bind_eq_ok.1 step with ⟨_ | a, isAdded, step⟩ <;> cases step
  · exact grown
  · exact grown.put member (.inr ⟨t, a, isAdded, rfl⟩)

/-! ## What is found in order -/

theorem allowed_of_checkOne {seen : List Attribute}
    (run : languageRules.checkOne allowed context file seen a = .ok []) :
    keyOf a ∈ allowed := by
  rcases bind_eq_ok.1 run with ⟨_, _, run⟩
  split at run
  · cases run
  · split at run
    · rename_i isAllowed
      exact contains_iff_mem.1 isAllowed
    · rcases bind_eq_ok.1 run with ⟨_, _, ends⟩
      cases ends

theorem allowed_of_checkList
    (run : (languageRules.checkList allowed context file attributes).run before = .ok ((), [])) :
    before = [] ∧ ∀ a ∈ attributes, backEndText a = "" → keyOf a ∈ allowed := by
  rcases run_bind_eq_ok.1 run with ⟨_, _, loop, ends⟩
  cases ends
  refine (forall_of_loop ?_ ?_ loop).imp_right fun all a member own =>
    all a (mem_filter.2 ⟨member, by simp [Rules.concerns, own, languageRules]⟩)
  · exact fun a seen => .bind fun _ => .bind fun _ => by split <;> exact .pure _
  · intro a seen before seen' step
    rcases run_lift_bind_eq_ok.1 step with ⟨groups, checked, step⟩
    rcases run_bind_eq_ok.1 step with ⟨_, _, reported, step⟩
    split at step <;> cases step
    all_goals
      obtain rfl := (Grows.loop Grows.reportGroup).eq_nil reported
      obtain rfl := eq_nil_of_silent_report reported
      exact ⟨rfl, allowed_of_checkOne checked⟩

theorem defaultOrder?_of_checkField {file : String}
    (run : (languageRules.checkField file f).run before = .ok ((), [])) :
    before = [] ∧ ((∀ a ∈ f.attributes, isOrder true a = true → backEndText a = "") →
      defaultOrder? (.field f) = none) := by
  rw [Rules.checkField] at run
  split at run
  all_goals
    rcases run_lift_bind_eq_ok.1 run with ⟨_, _, run⟩
    rcases allowed_of_checkList run with ⟨rfl, allowed⟩
    refine ⟨rfl, fun own => ?_⟩
    rw [defaultOrder?, getLast?_eq_none_iff, filter_eq_nil_iff]
    intro a member isDefault
    have isAllowed := allowed a member (own a member isDefault)
    rw [show keyOf a = ("byte_order", true) by simpa [isOrder] using isDefault] at isAllowed
    exact absurd isAllowed (by decide)

theorem defaultOrder?_of_check (run : languageRules.check p = .ok []) :
    ∀ x ∈ p.partsOf Node.field? [.field],
      (∀ a ∈ x.2.attributes, isOrder true a = true → backEndText a = "") →
        defaultOrder? (.field x.2) = none := by
  rcases bind_eq_ok.1 run with ⟨⟨_, _⟩, run, ends⟩
  cases ends
  rcases run_bind_eq_ok.1 run with ⟨_, _, _, run⟩
  rcases run_bind_eq_ok.1 run with ⟨_, _, _, run⟩
  rcases run_bind_eq_ok.1 run with ⟨_, _, fields, run⟩
  rcases run_bind_eq_ok.1 run with ⟨_, _, values, ends⟩
  cases ends
  have reported : _ = [] ∧ ∀ x ∈ _, True :=
    forall_of_loop (fun _ _ => .bind fun _ => .bind fun _ => .pure _) ?_ values
  · cases reported.1
    refine (forall_of_loop (fun _ _ => .bind fun _ => .pure _) ?_ fields).2
    intro x _ before _ step
    rcases run_bind_eq_ok.1 step with ⟨_, _, checked, ends⟩
    cases ends
    exact defaultOrder?_of_checkField checked
  · intro x _ before _ step
    rcases run_lift_bind_eq_ok.1 step with ⟨_, _, step⟩
    rcases run_bind_eq_ok.1 step with ⟨_, _, checked, ends⟩
    cases ends
    exact ⟨(allowed_of_checkList checked).1, trivial⟩

/-! ## The whole program -/

theorem byteOrderFor_eq_some (run : byteOrderFor p v t f = .ok (some a)) :
    attribute? f.attributes "byte_order" = .ok none ∧
      a = inheritedOrder (v.node :: v.ancestors) f := by
  rcases bind_eq_ok.1 run with ⟨inherited, isInherited, run⟩
  rcases bind_eq_ok.1 run with ⟨_, _, run⟩
  split at run
  · cases run
  rcases bind_eq_ok.1 run with ⟨value, found, run⟩
  split at run
  · cases run
  rename_i isNone
  obtain rfl : value = none := by simpa using isNone
  have isDefault := eq_of_defaultFor isInherited
  refine ⟨found, ?_⟩
  rw [inheritedOrder]
  cases around : (v.node :: v.ancestors).findSome? defaultOrder? with
  | some b =>
    rw [around] at isDefault
    subst isDefault
    cases run
    rfl
  | none =>
    rw [around] at isDefault
    subst isDefault
    rcases bind_eq_ok.1 run with ⟨_, _, run⟩
    split at run <;> cases run
    rfl

/-- What is around a field that has no default of its own. -/
theorem inheritedOrder_of_view (same : Node.view orderLabel x.1 = Node.view orderLabel y.1)
    (isField : x.1.node = .field x.2) (own : defaultOrder? (.field x.2) = none) :
    inheritedOrder (y.1.node :: y.1.ancestors) x.2 = inheritedOrder x.1.ancestors x.2 := by
  have labels : (x.1.node :: x.1.ancestors).map orderLabel =
    (y.1.node :: y.1.ancestors).map orderLabel := congrArg Prod.snd same
  have around (nodes : List Node) :
      nodes.findSome? defaultOrder? = (nodes.map orderLabel).findSome? defaultOrder? := by
    rw [findSome?_map]
    exact congrArg (nodes.findSome? ·) (funext fun n => (defaultOrder?_orderLabel n).symm)
  rw [inheritedOrder, around, ← labels, ← around, isField, findSome?_cons, own]
  rfl

/-- A field has the right byte order if it has grown from one around which the defaults are those
of the start. -/
theorem orders_of_grown {g : Field} {value : Option AttributeValue}
    (same : Node.view orderLabel x.1 = Node.view orderLabel y.1) (isField : x.1.node = .field x.2)
    (own : defaultOrder? (.field x.2) = none) (sameField : y.2 = x.2) (grown : Grown p y g)
    (found : attribute? g.attributes "byte_order" = .ok value) :
    orders g.attributes = (if value.isSome then [order x.1 x.2] else []) ∧
      (value.isSome = true → (order x.1 x.2).value = value) := by
  have values : (orders g.attributes).map (·.value) = value.toList.map some :=
    values_of_findAttribute found
  cases value with
  | none => exact ⟨map_eq_nil_iff.1 values, by rintro ⟨⟩⟩
  | some v =>
    rcases map_eq_singleton_iff.1 values with ⟨a, one, isValue⟩
    suffices isOrder' : order x.1 x.2 = a by rw [isOrder']; exact ⟨one, fun _ => isValue⟩
    rw [order]
    rcases grown with rfl | ⟨t, b, isAdded, rfl⟩
    · rw [← sameField, one]
      rfl
    · rw [sameField] at isAdded one
      rcases byteOrderFor_eq_some isAdded with ⟨unset, rfl⟩
      have written : orders x.2.attributes = [] :=
        map_eq_nil_iff.1 (values_of_findAttribute unset)
      have inherited := inheritedOrder_of_view same isField own
      rw [orders, filter_append, ← orders, written, nil_append, inherited] at one
      rw [written]
      exact (mem_of_mem_filter (one ▸ mem_singleton_self a) |> mem_singleton.1).symm

/-- If the attributes of a program are completed and found to agree with it, and no default for byte
orders that is set on a field is qualified, then the fields stand where they stood and each has the
byte order that it should have. -/
theorem ordered_normalize (run : normalize p = .ok (q, []))
    (unqualified : ∀ x ∈ p.partsOf Node.field? [.field], ∀ a ∈ x.2.attributes,
      isOrder true a = true → backEndText a = "") :
    (q.partsOf Node.field? [.field]).map (·.1.address) =
        (p.partsOf Node.field? [.field]).map (·.1.address) ∧
      ∀ z ∈ q.partsOf Node.field? [.field], ∃ x ∈ p.partsOf Node.field? [.field],
        Ordered q x z := by
  rcases bind_eq_ok.1 run with ⟨groups, checked, run⟩
  split at run
  · rename_i reported
    cases run
    cases reported
  rename_i silent
  obtain rfl : groups = [] := by simpa using silent
  simp only [complete, bind_eq_ok, pure_eq_ok, Prod.mk.injEq] at run
  rcases run with ⟨_, ⟨modules, modulesRun, _, external, _, enumerations, middle, structures,
    completed⟩, _, verified, rfl, rfl⟩
  -- Up to `middle` neither fields nor defaults change; the last step adds the byte orders.
  have same : (Node.program middle).shape orderLabel .field =
      (Node.program p).shape orderLabel .field := by
    rw [shape_changeTypes structures, shape_changeTypes enumerations, shape_changeTypes external,
      shape_completeModules modulesRun]
  have grown := grownFrom_completeByteOrders completed
  constructor
  · rw [Program.addresses_of_shape grown.shape, Program.addresses_of_shape same]
  intro z isLast
  rcases grown.fields z isLast with ⟨y, isMiddle, address, isGrown⟩
  rcases exists_right_of_mem (Program.forall₂_fields same) isMiddle with ⟨x, isFirst, alike⟩
  have isField := (Program.node_of_partsOf isFirst).2
  have sameField : orderLabel y.1.node = orderLabel x.1.node :=
    (cons.inj (congrArg Prod.snd alike)).1
  rw [isField, (Program.node_of_partsOf isMiddle).2] at sameField
  rcases (agrees_of_verify verified).2 z isLast with ⟨t, value, isType, agrees⟩
  have result := orders_of_grown alike.symm isField
    (defaultOrder?_of_check checked x isFirst (unqualified x isFirst)) (Node.field.inj sameField)
    isGrown agrees.found
  refine ⟨x, isFirst, address.symm.trans (Node.address_of_view alike), t, value.isSome, isType,
    agrees.needed, result.1, fun isSome isNull => ?_⟩
  rcases Option.isSome_iff_exists.1 isSome with ⟨v, rfl⟩
  rw [result.2 rfl] at isNull
  exact agrees.isNull v rfl isNull

/-- A structure of two fields, one of which sets its byte order, in a file with a default. -/
def wordsSample : Program :=
  let named (text : String) : Option NameDefinition := some { name := some { text := some text } }
  let number (n : Int) : Option Expression := some (.constant { value := some (.int n) } {})
  let word (text : String) (start : Int) (attributes : List Attribute) : Field :=
    { name := named text
      placement := some { start := number start, size := number 2 }
      type := some (.atomic { reference := some { canonicalName := some ⟨"", ["UInt"]⟩ } } none none)
      attributes }
  let little := stringAttribute "byte_order" "LittleEndian" none
  { modules := [
    { fileName := some "sample"
      attributes := [{ little with isDefault := some true }]
      types := [{
        name := named "Words"
        unit := some .byte
        body := .record { fields :=
          [word "first" 0 [], word "second" 2 [stringAttribute "byte_order" "BigEndian" none]] } }] },
    { fileName := some ""
      types := [{
        name := named "UInt"
        attributes := [integerAttribute "addressable_unit_size" 1 none]
        body := .external {} }] }] }

theorem ordered_normalize_wordsSample :
    ∃ q, normalize wordsSample = .ok (q, []) ∧
      (q.partsOf Node.field? [.field]).map (·.1.address) =
        (wordsSample.partsOf Node.field? [.field]).map (·.1.address) ∧
      ∀ z ∈ q.partsOf Node.field? [.field], ∃ x ∈ wordsSample.partsOf Node.field? [.field],
        Ordered q x z := by
  have accepted : ((normalize wordsSample).toOption.map fun result => result.2.length) = some 0 := by
    simp only [normalize, Rules.check, complete, completeByteOrders, changeTypes, verify,
      checkBackEnds, Program.partsOf, Program.visits, Node.walk_eq_search]
    decide +kernel
  have unqualified : ((wordsSample.partsOf Node.field? [.field]).all fun x =>
      x.2.attributes.all fun a => !isOrder true a || backEndText a == "") = true := by
    simp only [Program.partsOf, Program.visits, Node.walk_eq_search]
    decide +kernel
  rcases exists_ok_of_length accepted with ⟨⟨q, _⟩, run, rfl⟩
  refine ⟨q, run, ordered_normalize run fun x isField a member isDefault => ?_⟩
  have holds := all_eq_true.1 (all_eq_true.1 unqualified x isField) a member
  rw [isDefault] at holds
  exact beq_iff_eq.1 holds

end BinaryLayout.Attributes
