import BinaryLayout.IR.Walk
import BinaryLayout.Proofs.IR.Skeleton

/-!
# Replacing children

The kinds of the children of a node are those that stand below its kind in the schema.  A child
that can have parts itself can be replaced by another node of its kind, and then the list of
children has the new one in the place of the old one; if both have the same skeleton, the node
keeps its own.
-/

namespace BinaryLayout.IR

open List

/-- A list of children with the one at a step replaced. -/
def replaceChild (s : Step) (c : Node) (child : Step × Node) : Step × Node :=
  if child.1 = s then (s, c) else child

section Replace

variable {α : Type} {field : String} {inject : α → Node} {s : Step} {c : Node}

variable {part : Option α} {child : Node} {index i : Nat} {parts : List α} {a : α}

theorem replace_childIn_of_ne (other : s.field ≠ field) :
    (childIn field inject part).map (replaceChild s c) = childIn field inject part := by
  cases part with
  | none => rfl
  | some a =>
    have apart : (⟨field, 0⟩ : Step) ≠ s := fun equal => other (equal ▸ rfl)
    simp [childIn, replaceChild, apart]

theorem replace_childIn_self (isSome : part.isSome) :
    (childIn field inject part).map (replaceChild ⟨field, 0⟩ (inject a)) =
      childIn field inject (some a) := by
  cases part with
  | none => cases isSome
  | some b => simp [childIn, replaceChild]

theorem replace_childrenIn_of_ne (other : s.field ≠ field) :
    (childrenIn field inject index parts).map (replaceChild s c) =
      childrenIn field inject index parts := by
  induction parts generalizing index with
  | nil => rfl
  | cons _ _ ih =>
    have apart : (⟨field, index⟩ : Step) ≠ s := fun equal => other (equal ▸ rfl)
    simp [childrenIn, replaceChild, apart, ih]

theorem replace_childrenIn_of_lt (beyond : i < index) :
    (childrenIn field inject index parts).map (replaceChild ⟨field, i⟩ c) =
      childrenIn field inject index parts := by
  induction parts generalizing index with
  | nil => rfl
  | cons _ _ ih =>
    have apart : (⟨field, index⟩ : Step) ≠ ⟨field, i⟩ := by
      simp only [ne_eq, Step.mk.injEq, true_and]
      omega
    simp [childrenIn, replaceChild, apart, ih (Nat.lt_succ_of_lt beyond)]

theorem replace_childrenIn_self :
    (childrenIn field inject index parts).map (replaceChild ⟨field, index + i⟩ (inject a)) =
      childrenIn field inject index (parts.set i a) := by
  induction parts generalizing index i with
  | nil => rfl
  | cons _ _ ih =>
    cases i with
    | zero => simp [childrenIn, replaceChild, replace_childrenIn_of_lt]
    | succ i =>
      have apart : (⟨field, index⟩ : Step) ≠ ⟨field, index + (i + 1)⟩ := by
        simp only [ne_eq, Step.mk.injEq, true_and]
        omega
      have shift : index + (i + 1) = index + 1 + i := by omega
      simp only [childrenIn, map_cons, set_cons_succ, replaceChild, apart, if_false]
      rw [shift]
      exact congrArg _ ih

theorem replace_childrenIn_zero :
    (childrenIn field inject 0 parts).map (replaceChild ⟨field, i⟩ (inject a)) =
      childrenIn field inject 0 (parts.set i a) := by
  rw [← replace_childrenIn_self, Nat.zero_add]

theorem set_of_getElem? {list : List α} (there : list[i]? = some a) : list.set i a = list := by
  rcases List.getElem?_eq_some_iff.1 there with ⟨_, rfl⟩
  exact set_getElem_self _

/-- Replacing an element by one with the same image keeps the images. -/
theorem map_set_of_eq {β : Type} {change : α → β} {list : List α} {a' : α}
    (there : list[i]? = some a) (same : change a' = change a) :
    (list.set i a').map change = list.map change := by
  rw [map_set, same, set_of_getElem? (by rw [getElem?_map, there, Option.map_some])]

end Replace

/-! ## Kinds that hold others -/

theorem Kind.mem_all (k : Kind) : k ∈ Kind.all := by
  cases k <;> decide

theorem Kind.canHold_self (k : Kind) : k.canHold k = true := by
  have all : Kind.all.all (fun k => k.canHold k) = true := by decide +kernel
  exact all_eq_true.1 all k k.mem_all

theorem Kind.canHold_of_below {k c target : Kind} (below : c ∈ k.below)
    (holds : c.canHold target = true) : k.canHold target = true := by
  have all : Kind.all.all (fun k => k.below.all fun c =>
      Kind.all.all fun target => !c.canHold target || k.canHold target) = true := by
    decide +kernel
  have ofKind := all_eq_true.1 (all_eq_true.1 (all_eq_true.1 all k k.mem_all) c
    below) target target.mem_all
  simpa [holds] using ofKind

/-- Whether a node of a kind has no children of its own. -/
def Kind.isLeaf (k : Kind) : Bool :=
  k.below.isEmpty

namespace Node

variable {n c c' : Node} {s : Step}

/-- What names lead through in a node. -/
def skeleton : Node → Node
  | .program p => .program p.skeleton
  | .moduleFile m => .moduleFile m.skeleton
  | .typeDefinition t => .typeDefinition t.skeleton
  | .structureBody s => .structureBody s.skeleton
  | .enumBody e => .enumBody e.skeleton
  | .field f => .field f.skeleton
  | .enumValue v => .enumValue v.skeleton
  | .parameter q => .parameter q.skeleton
  | .type t => .type t.skeleton
  | .atomicType atom => .atomicType { reference := atom.reference }
  | .arrayType _ => .arrayType {}
  | .placement _ => .placement {}
  | .property _ => .property {}
  | .attributeValue _ => .attributeValue (.unset none)
  | .writeMethod _ => .writeMethod .unset
  | .writeTransform _ => .writeTransform {}
  | .expression e => .expression e.trace
  | .call _ => .call {}
  | n => n

theorem mem_children_of_child? (found : n.child? s = some c) : (s, c) ∈ n.children := by
  simp only [child?, Option.map_eq_some_iff] at found
  rcases found with ⟨⟨step, _⟩, isFirst, rfl⟩
  have same : step = s := by simpa using find?_some isFirst
  exact same ▸ mem_of_find?_eq_some isFirst

@[simp]
theorem kind_withChild (n : Node) (s : Step) (c : Node) : (n.withChild s c).kind = n.kind := by
  cases n <;> simp only [withChild] <;> (repeat' split) <;> rfl

section Kinds

variable {α : Type} {field : String} {inject : α → Node} {kinds : List Kind}

theorem kinds_childIn {part : Option α} (k : Kind) (same : ∀ a, (inject a).kind = k)
    (allowed : k ∈ kinds) : ∀ child ∈ childIn field inject part, child.2.kind ∈ kinds :=
  forall_childIn fun a _ => (same a).symm ▸ allowed

theorem kinds_childrenIn {parts : List α} (k : Kind) (same : ∀ a, (inject a).kind = k)
    (allowed : k ∈ kinds) : ∀ child ∈ childrenIn field inject 0 parts, child.2.kind ∈ kinds :=
  forall_childrenIn fun _ a _ => (same a).symm ▸ allowed

end Kinds

theorem kind_of_mem_children (n : Node) : ∀ child ∈ n.children, child.2.kind ∈ n.kind.below := by
  cases n with
  | expression e =>
    rw [kind]
    refine forall_mem_append.2 ⟨?_, kinds_childIn .expressionType (fun _ => rfl) (by decide)⟩
    cases e with
    | unset => exact forall_mem_nil _
    | _ => exact forall_mem_singleton.2 (by simp only [kind]; decide)
  | arrayType t =>
    rw [kind]
    refine forall_mem_append.2 ⟨kinds_childIn .type (fun _ => rfl) (by decide), ?_⟩
    cases t.size with
    | unset => exact forall_mem_nil _
    | _ => exact forall_mem_singleton.2 (by simp only [kind]; decide)
  | type t =>
    have size := @kinds_childIn _ "size_in_bits" Node.expression Kind.type.below t.sizeInBits
      .expression (fun _ => rfl) (by decide)
    cases t with
    | unset => exact size
    | _ => exact forall_mem_cons.2 ⟨by simp only [kind]; decide, size⟩
  | expressionType part | attributeValue part | writeMethod part =>
    cases part <;> first
      | exact forall_mem_nil _
      | exact forall_mem_singleton.2 (by simp only [kind]; decide)
  | typeDefinition t =>
    simp only [children, kind, forall_mem_append, and_assoc]
    refine ⟨?_, kinds_childIn .nameDefinition (fun _ => rfl) (by decide), ?_, ?_, ?_, ?_⟩
    · cases t.body with
      | unset => exact forall_mem_nil _
      | _ => exact forall_mem_singleton.2 (by simp only; decide)
    all_goals exact kinds_childrenIn _ (fun _ => rfl) (by decide)
  | call | nameDefinition | reference | fieldReference | enumType | atomicType | property
  | writeTransform | placement | field | structureBody | enumValue | enumBody | importLine
  | parameter | moduleFile | program =>
    simp only [children, kind, forall_mem_append]
    repeat' apply And.intro
    all_goals first
      | exact kinds_childIn _ (fun _ => rfl) (by decide)
      | exact kinds_childrenIn _ (fun _ => rfl) (by decide)
  | _ => exact forall_mem_nil _

theorem isLeaf_of_mem (member : (s, c) ∈ n.children) : n.kind.isLeaf = false := by
  rw [Kind.isLeaf, isEmpty_eq_false_iff]
  exact ne_nil_of_mem (kind_of_mem_children n _ member)

/-! ## Steps -/

/-- Children with different steps, which stand in certain fields. -/
structure Grouped (fields : List String) (list : List (Step × Node)) : Prop where
  apart : list.Pairwise fun x y => x.1 ≠ y.1
  inFields : ∀ x ∈ list, x.1.field ∈ fields

section Grouped

variable {α : Type} {inject : α → Node}

theorem Grouped.nil (fields : List String) : Grouped fields [] :=
  ⟨.nil, forall_mem_nil _⟩

theorem Grouped.single {fields : List String} (c : Node) (member : s.field ∈ fields) :
    Grouped fields [(s, c)] :=
  ⟨pairwise_singleton .., forall_mem_singleton.2 member⟩

theorem grouped_childIn (field : String) (part : Option α) :
    Grouped [field] (childIn field inject part) := by
  cases part with
  | none => exact .nil _
  | some a => exact .single _ (mem_singleton_self _)

theorem grouped_childrenIn (field : String) (index : Nat) (parts : List α) :
    Grouped [field] (childrenIn field inject index parts) := by
  induction parts generalizing index with
  | nil => exact .nil _
  | cons _ _ ih =>
    refine ⟨.cons ?_ (ih (index + 1)).apart, forall_mem_cons.2
      ⟨mem_singleton_self _, (ih (index + 1)).inFields⟩⟩
    rintro ⟨s, child⟩ member
    rcases mem_childrenIn_from.1 member with ⟨i, _, rfl, _, _⟩
    simp only [ne_eq, Step.mk.injEq, true_and]
    omega

theorem Grouped.append {fields others : List String} {list list' : List (Step × Node)}
    (first : Grouped fields list) (second : Grouped others list')
    (differ : ∀ field ∈ fields, field ∉ others) : Grouped (fields ++ others) (list ++ list') := by
  refine ⟨pairwise_append.2 ⟨first.apart, second.apart, fun x inFirst y inSecond same => ?_⟩,
    forall_mem_append.2 ⟨fun x member => mem_append_left _ (first.inFields x member),
      fun x member => mem_append_right _ (second.inFields x member)⟩⟩
  exact differ _ (first.inFields x inFirst) (same ▸ second.inFields y inSecond)

end Grouped

theorem apart_children (n : Node) : n.children.Pairwise fun x y => x.1 ≠ y.1 := by
  cases n with
  | expressionType part | attributeValue part | writeMethod part =>
    cases part <;> simp [children]
  | expression e =>
    have form : Grouped ["constant", "constant_reference", "function", "field_reference",
        "boolean_constant", "builtin_reference"] (formOf e) := by
      cases e with
      | unset => exact .nil _
      | _ => exact .single _ (by simp)
    exact (form.append (grouped_childIn _ _) (by decide)).apart
  | arrayType t =>
    rcases t with ⟨base, size, location⟩
    have base := @grouped_childIn _ Node.type "base_type" base
    cases size with
    | unset => exact (base.append (.nil []) (by decide)).apart
    | _ => exact (base.append (.single _ (mem_singleton_self _)) (by decide)).apart
  | type t =>
    have size := @grouped_childIn _ Node.expression "size_in_bits" t.sizeInBits
    cases t with
    | unset => exact size.apart
    | _ => exact ((Grouped.single _ (mem_singleton_self _)).append size (by decide)).apart
  | typeDefinition t =>
    rcases t with ⟨body, _, _, _, _, _, _, _⟩
    simp only [children]
    cases body
    all_goals
      apply Grouped.apart
      repeat' first
        | exact grouped_childIn _ _
        | exact grouped_childrenIn _ _ _
        | exact Grouped.nil []
        | exact Grouped.single _ (mem_singleton_self _)
        | apply Grouped.append
      all_goals decide
  | call | nameDefinition | reference | fieldReference | enumType | atomicType | property
  | writeTransform | placement | field | structureBody | enumValue | enumBody | importLine
  | parameter | moduleFile | program =>
    apply Grouped.apart
    repeat' first
      | exact grouped_childIn _ _
      | exact grouped_childrenIn _ _ _
      | apply Grouped.append
    all_goals decide
  | _ => exact .nil

theorem child?_of_mem (member : (s, c) ∈ n.children) : n.child? s = some c := by
  have apart := n.apart_children
  rw [child?]
  generalize n.children = list at member apart
  induction apart with
  | nil => cases member
  | @cons first rest differ _ ih =>
    rcases mem_cons.1 member with rfl | inRest
    · simp
    · have other : (first.1 == s) = false := by simpa using differ _ inRest
      rw [find?_cons, other]
      exact ih inRest

/-! ## Children that are replaced -/

theorem withChild_self (n : Node) : ∀ child ∈ n.children, n.withChild child.1 child.2 = n := by
  cases n with
  | expression e =>
    refine forall_mem_append.2 ⟨?_, forall_childIn fun t there => ?_⟩
    · cases e <;> simp [formOf, withChild, expressionWith, Expression.ofCall]
    · change Node.expression (e.withType (some t)) = .expression e
      rw [← there]
      cases e <;> rfl
  | expressionType part | attributeValue part | writeMethod part =>
    cases part <;> simp [children, withChild]
  | type t =>
    have sized : ∀ child ∈ childIn "size_in_bits" .expression t.sizeInBits,
        (Node.type t).withChild child.1 child.2 = .type t := by
      refine forall_childIn fun _ there => ?_
      cases t <;> cases there <;> rfl
    cases t with
    | unset => exact sized
    | _ => exact forall_mem_cons.2 ⟨rfl, sized⟩
  | arrayType part | typeDefinition part | call part | nameDefinition part | reference part
  | fieldReference part | enumType part | atomicType part | property part | writeTransform part
  | placement part | field part | structureBody part | enumValue part | enumBody part
  | importLine part | parameter part | moduleFile part | program part =>
    cases part
    simp only [children, forall_mem_append]
    repeat' apply And.intro
    all_goals first
      | refine forall_childIn fun _ there => ?_
        cases there
        rfl
      | refine forall_childrenIn fun _ _ there => ?_
        simp [withChild, fieldWith, definitionWith, putAt, expression?, reference?, property?,
          field?, enumValue?, import?, module?, typeDefinition?, parameter?, set_of_getElem? there]
      | split <;> simp [withChild, definitionWith]
  | _ => exact forall_mem_nil _

theorem children_withChild (n : Node) : ∀ child ∈ n.children, child.2.kind.isLeaf = false →
    c'.kind = child.2.kind →
    (n.withChild child.1 c').children = n.children.map (replaceChild child.1 c') := by
  cases n with
  | expression e =>
    refine forall_mem_append.2 ⟨?_, forall_childIn fun t there inner same => ?_⟩
    · cases e with
      | unset => exact forall_mem_nil _
      | _ =>
        refine forall_mem_singleton.2 fun inner same => ?_
        first
        | (cases inner; done)
        | cases c' <;> first | (cases same; done) | skip
          simp [children, withChild, expressionWith, formOf, replace_childIn_of_ne, replaceChild,
            Expression.ofCall, Expression.type, Expression.note]
    · cases c' <;> first | (cases same; done) | skip
      rename_i t
      have sameForm : formOf (e.withType (some t)) = formOf e := by cases e <;> rfl
      have kept : (formOf e).map (replaceChild ⟨"type", 0⟩ (.expressionType t)) = formOf e := by
        cases e <;> simp [formOf, replaceChild]
      simp only [children, withChild, expressionWith, sameForm, Expression.type_withType,
        map_append, kept, replace_childIn_self (Option.isSome_of_eq_some there)]
  | expressionType part | attributeValue part | writeMethod part =>
    cases part <;> first
      | exact forall_mem_nil _
      | refine forall_mem_singleton.2 fun inner same => ?_
    all_goals first
      | (cases inner; done)
      | cases c' <;> first | (cases same; done) | skip
    all_goals simp [children, withChild, replaceChild]
  | arrayType t =>
    rcases t with ⟨base, size, _⟩
    refine forall_mem_append.2 ⟨forall_childIn fun _ there _ same => ?_, ?_⟩
    · cases c' <;> first | (cases same; done) | skip
      cases size <;> simp_all [children, withChild, replace_childIn_self, replaceChild]
    · cases size <;> first
        | exact forall_mem_nil _
        | refine forall_mem_singleton.2 fun inner same => ?_
      all_goals first
        | (cases inner; done)
        | cases c' <;> first | (cases same; done) | skip
      simp [children, withChild, replaceChild, replace_childIn_of_ne]
  | type t =>
    have sized : ∀ child ∈ childIn "size_in_bits" .expression t.sizeInBits,
        child.2.kind.isLeaf = false → c'.kind = child.2.kind →
        ((Node.type t).withChild child.1 c').children =
          (Node.type t).children.map (replaceChild child.1 c') := by
      refine forall_childIn fun _ there _ same => ?_
      cases c' <;> first | (cases same; done) | skip
      cases t <;> cases there <;> simp [children, withChild, typeWith, childIn, replaceChild]
    cases t with
    | unset => exact sized
    | _ =>
      refine forall_mem_cons.2 ⟨fun _ same => ?_, sized⟩
      cases c' <;> first | (cases same; done) | skip
      simp [children, withChild, typeWith, replace_childIn_of_ne, replaceChild]
  | typeDefinition t =>
    rcases t with ⟨body, _, _, _, _, _, _, _⟩
    simp only [children, forall_mem_append, and_assoc]
    refine ⟨?_, forall_childIn fun _ there _ same => ?_,
      forall_childrenIn fun i _ there _ same => ?_,
      forall_childrenIn fun i _ there inner same => ?_,
      forall_childrenIn fun i _ there _ same => ?_, forall_childrenIn fun i _ there _ same => ?_⟩
    · cases body <;> first
        | exact forall_mem_nil _
        | refine forall_mem_singleton.2 fun inner same => ?_
      all_goals
        cases c' <;> first | (cases same; done) | skip
        simp [withChild, definitionWith, replaceChild, replace_childIn_of_ne,
          replace_childrenIn_of_ne]
    all_goals first
      | cases inner
      | cases c' <;> first | (cases same; done) | skip
    all_goals
      cases body <;> simp [withChild, definitionWith, putIn, putAt, nameDefinition?, property?,
        typeDefinition?, parameter?, replaceChild, replace_childIn_of_ne, replace_childIn_self,
        replace_childrenIn_of_ne, replace_childrenIn_zero, there]
  | call | nameDefinition | reference | fieldReference | enumType | atomicType | property
  | writeTransform | placement | field | structureBody | enumValue | enumBody | importLine
  | parameter | moduleFile | program =>
    simp only [children, forall_mem_append]
    repeat' apply And.intro
    all_goals first
      | refine forall_childIn fun _ there inner same => ?_
      | refine forall_childrenIn fun i _ there inner same => ?_
    all_goals first
      | (cases inner; done)
      | cases c' <;> first | (cases same; done) | skip
    all_goals
      simp [withChild, fieldWith, putIn, putAt, expression?, nameDefinition?, reference?,
        fieldReference?, expressionType?, import?, type?, attributeValue?, property?, placement?,
        writeMethod?, field?, enumValue?, module?, typeDefinition?, replace_childIn_of_ne,
        replace_childIn_self, replace_childrenIn_of_ne, replace_childrenIn_zero, there]
  | _ => exact forall_mem_nil _

theorem skeleton_withChild (n : Node) : ∀ child ∈ n.children, child.2.kind.isLeaf = false →
    c'.kind = child.2.kind → c'.skeleton = child.2.skeleton →
    (n.withChild child.1 c').skeleton = n.skeleton := by
  cases n with
  | call | expression | arrayType | attributeValue | property | writeTransform | writeMethod
  | placement =>
    -- nothing of their children is kept
    intro child member inner same alike
    simp only [withChild]
    repeat' split
    all_goals rfl
  | expressionType t =>
    cases t <;> first
      | exact forall_mem_nil _
      | refine forall_mem_singleton.2 fun inner same alike => ?_
    all_goals first
      | (cases inner; done)
      | cases c' <;> first | (cases same; done) | (cases alike; rfl)
  | type t =>
    have sized : ∀ child ∈ childIn "size_in_bits" .expression t.sizeInBits,
        child.2.kind.isLeaf = false → c'.kind = child.2.kind → c'.skeleton = child.2.skeleton →
        ((Node.type t).withChild child.1 c').skeleton = (Node.type t).skeleton := by
      refine forall_childIn fun _ there _ same _ => ?_
      cases c' <;> first | (cases same; done) | skip
      cases t <;> cases there <;> rfl
    cases t with
    | unset => exact sized
    | array =>
      refine forall_mem_cons.2 ⟨fun _ same _ => ?_, sized⟩
      cases c' <;> first | (cases same; done) | rfl
    | atomic =>
      refine forall_mem_cons.2 ⟨fun _ same alike => ?_, sized⟩
      cases c' <;> first | (cases same; done) | skip
      injection alike with alike
      injection alike with reference
      simp [skeleton, withChild, typeWith, TypeSpec.skeleton, reference]
  | typeDefinition t =>
    rcases t with ⟨body, _, _, _, _, _, _, _⟩
    simp only [children, forall_mem_append, and_assoc]
    refine ⟨?_, forall_childIn fun _ there _ same alike => ?_,
      forall_childrenIn fun i _ there _ same alike => ?_,
      forall_childrenIn fun i _ there inner same alike => ?_,
      forall_childrenIn fun i _ there _ same alike => ?_,
      forall_childrenIn fun i _ there _ same alike => ?_⟩
    · cases body <;> first
        | exact forall_mem_nil _
        | refine forall_mem_singleton.2 fun inner same alike => ?_
      all_goals
        cases c' <;> first | (cases same; done) | skip
        simp_all [skeleton, withChild, definitionWith, TypeDefinition.skeleton, TypeBody.skeleton]
    all_goals first
      | cases inner
      | cases c' <;> first | (cases same; done) | skip
    all_goals
      injection alike with alike
      first
      | rfl
      | (simp [skeleton, withChild, definitionWith, putIn, nameDefinition?, there, alike]; done)
      | simp [skeleton, withChild, definitionWith, putAt, typeDefinition?, parameter?,
          TypeDefinition.skeleton, TypeDefinition.skeletons_eq_map, map_set_of_eq there alike]
  | fieldReference r =>
    refine forall_childrenIn fun i _ there _ same alike => ?_
    cases c' <;> first | (cases same; done) | skip
    cases alike
    simp only [withChild, putAt, reference?, set_of_getElem? there]
  | enumType t =>
    rcases t with ⟨_ | _, _⟩
    · exact forall_mem_nil _
    · refine forall_mem_singleton.2 fun _ same alike => ?_
      cases c' <;> first | (cases same; done) | (cases alike; rfl)
  | nameDefinition | reference | atomicType | field | structureBody | enumValue | enumBody
  | importLine | parameter | moduleFile | program =>
    simp only [children, forall_mem_append]
    repeat' apply And.intro
    all_goals first
      | refine forall_childIn fun _ there inner same alike => ?_
      | refine forall_childrenIn fun i _ there inner same alike => ?_
    all_goals first
      | (cases inner; done)
      | cases c' <;> first | (cases same; done) | skip
    all_goals
      injection alike with alike
      first
      | rfl
      | (simp [skeleton, withChild, fieldWith, putIn, nameDefinition?, reference?, placement?,
          type?, Field.skeleton, EnumValue.skeleton, RuntimeParameter.skeleton, there, alike]; done)
      | simp [skeleton, withChild, putAt, field?, enumValue?, typeDefinition?, module?,
          Structure.skeleton, Enumeration.skeleton, Module.skeleton, Program.skeleton,
          TypeDefinition.skeletons_eq_map, map_set_of_eq there alike]
  | _ => exact forall_mem_nil _

theorem find?_replaceChild_of_ne {t : Step} (other : t ≠ s) (list : List (Step × Node)) :
    (list.map (replaceChild s c)).find? (·.1 == t) = list.find? (·.1 == t) := by
  induction list with
  | nil => rfl
  | cons head tail ih =>
    have first : (replaceChild s c head).1 = head.1 := by
      unfold replaceChild
      split
      · exact Eq.symm ‹_›
      · rfl
    rw [map_cons, find?_cons, find?_cons, first, ih]
    cases same : head.1 == t with
    | false => rfl
    | true =>
      have apart : head.1 ≠ s := by
        rw [beq_iff_eq.1 same]
        exact other
      rw [replaceChild, if_neg apart]

theorem find?_replaceChild_self {list : List (Step × Node)} (there : (list.find? (·.1 == s)).isSome)
    : (list.map (replaceChild s c)).find? (·.1 == s) = some (s, c) := by
  induction list with
  | nil => cases there
  | cons head tail ih =>
    rw [map_cons, find?_cons, replaceChild]
    by_cases here : head.1 = s
    · rw [if_pos here]
      simp
    · have apart : (head.1 == s) = false := by simpa using here
      rw [find?_cons, apart] at there
      rw [if_neg here, apart]
      exact ih there

theorem child?_of_replaced {n' : Node} (isChild : n.child? s = some c)
    (replaced : n'.children = n.children.map (replaceChild s c')) (t : Step) :
    n'.child? t = if t = s then some c' else n.child? t := by
  rw [child?, replaced]
  split
  · rename_i equal
    simp only [child?, Option.map_eq_some_iff] at isChild
    rcases isChild with ⟨_, isFirst, _⟩
    rw [equal, find?_replaceChild_self (by rw [isFirst]; rfl), Option.map_some]
  · rename_i other
    rw [find?_replaceChild_of_ne other, child?]

theorem child?_withChild (isChild : n.child? s = some c) (inner : c.kind.isLeaf = false)
    (same : c'.kind = c.kind) (t : Step) :
    (n.withChild s c').child? t = if t = s then some c' else n.child? t :=
  child?_of_replaced isChild
    (children_withChild n _ (mem_children_of_child? isChild) inner same) t

end Node

end BinaryLayout.IR
