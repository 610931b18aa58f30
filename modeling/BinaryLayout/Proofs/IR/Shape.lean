import BinaryLayout.Proofs.IR.Object
import BinaryLayout.Proofs.IR.Outline

/-!
# The shape of a program

`Node.shape` is the tree of the nodes in which nodes of some kind can be, with a label of each.

Main statements: a node that is put in the place of one with the same shape leaves the shape around
it as it is.  In programs with the same shape, the visits of nodes in it are made one for one, with
the same labels around them.
-/

namespace BinaryLayout.IR

open List

/-- A tree of kinds and labels. -/
inductive Shape where
  | node (kind : Kind) (label : Node) (children : List (Step × Shape))

namespace Node

variable {label : Node → Node} {target : Kind} {n m c c' : Node} {a : Address} {s : Step}
  {trail : List Step} {ancestors ancestors' : List Node} {v : Visit}

def shape (label : Node → Node) (target : Kind) (n : Node) : Shape :=
  .node n.kind (label n) <|
    (n.children.filter (·.2.kind.canHold target)).attach.map fun ⟨(step, child), _⟩ =>
      (step, child.shape label target)
termination_by sizeOf n
decreasing_by
  rename_i member
  exact sizeOf_lt_of_mem_children n _ (mem_of_mem_filter member)

theorem shape_eq (label : Node → Node) (target : Kind) (n : Node) :
    n.shape label target = .node n.kind (label n)
      ((n.children.filter (·.2.kind.canHold target)).map
        fun child => (child.1, child.2.shape label target)) := by
  rw [shape]
  exact congrArg _ (attach_map_val
    (f := fun child : Step × Node => (child.1, child.2.shape label target)))

/-- The shape of a node that holds nothing of the kind further down. -/
theorem shape_of_below (nothing : ∀ k ∈ n.kind.below, k.canHold target = false) :
    n.shape label target = .node n.kind (label n) [] := by
  have none : n.children.filter (·.2.kind.canHold target) = [] :=
    filter_eq_nil_iff.2 fun child member =>
      Bool.eq_false_iff.1 (nothing _ (kind_of_mem_children n child member))
  rw [shape_eq, none, map_nil]

/-- Nodes of the same kind with the same label. -/
structure Alike (label : Node → Node) (n m : Node) : Prop where
  kind : n.kind = m.kind
  label : label n = label m

theorem alike_of_shape (same : n.shape label target = m.shape label target) : Alike label n m := by
  rw [shape_eq, shape_eq, Shape.node.injEq] at same
  exact ⟨same.1, same.2.1⟩

/-! ## Changes -/

/-- A label does not tell more of the nodes directly inside a node than their labels do. -/
def IsOwn (label : Node → Node) (target : Kind) : Prop :=
  ∀ {n s c d}, (s, c) ∈ n.children → c.kind.isLeaf = false → c.kind.canHold target = true →
    Alike label d c → label (n.withChild s d) = label n

theorem shape_update {k : Kind} (own : IsOwn label k) (found : n.at? a = some c)
    (inner : c.kind.isLeaf = false) (holds : c.kind.canHold k = true)
    (same : c'.shape label target = c.shape label target) :
    (n.update a fun _ => c').shape label target = n.shape label target := by
  induction a generalizing n with
  | nil =>
    cases found
    exact same
  | cons s rest ih =>
    rcases at?_cons_eq_some.1 found with ⟨child, isChild, below⟩
    have isMember := mem_children_of_child? isChild
    have hasParts := isLeaf_above below inner
    have alike := alike_of_shape (ih below)
    have within (t : Step) (d : Node) (member : (t, d) ∈ n.children) (here : t = s) :
        d = child := by
      subst here
      exact Option.some.inj ((child?_of_mem member).symm.trans isChild)
    rw [update, isChild, shape_eq, shape_eq, kind_withChild,
      own isMember hasParts (canHold_above_at? below holds) alike,
      children_withChild _ _ isMember hasParts alike.kind, filter_map, map_map]
    have filtered : n.children.filter ((·.2.kind.canHold target) ∘
        replaceChild s (child.update rest fun _ => c')) =
        n.children.filter (·.2.kind.canHold target) := by
      refine filter_congr ?_
      rintro ⟨t, d⟩ member
      simp only [Function.comp_def, replaceChild]
      split
      · rename_i here
        rw [within t d member here, alike.kind]
      · rfl
    rw [filtered]
    refine congrArg _ (map_congr_left ?_)
    rintro ⟨t, d⟩ member
    simp only [Function.comp_def, replaceChild]
    split
    · rename_i here
      rw [within t d (mem_of_mem_filter member) here, ih below, here]
    · rfl

/-! ## Visits -/

/-- The way to a visited node, and the labels of the node and of those around it. -/
def view (label : Node → Node) (v : Visit) : List Step × List Node :=
  (v.trail, (v.node :: v.ancestors).map label)

/-- In nodes with the same shape the visits at an address look alike. -/
theorem visitAt_of_shape (same : n.shape label target = m.shape label target)
    (around : ancestors.map label = ancestors'.map label)
    (there : n.visitAt trail ancestors a = some v) (holds : v.node.kind.canHold target = true) :
    ∃ w, m.visitAt trail ancestors' a = some w ∧ view label w = view label v ∧
      w.node.kind = v.node.kind := by
  induction a generalizing n m trail ancestors ancestors' with
  | nil =>
    cases there
    have alike := alike_of_shape same
    exact ⟨_, rfl, by rw [view, view, map_cons, map_cons, alike.label, around], alike.kind.symm⟩
  | cons s rest ih =>
    rcases visitAt_cons_eq_some.1 there with ⟨c, isChild, below⟩
    have around' : (n :: ancestors).map label = (m :: ancestors').map label := by
      rw [map_cons, map_cons, (alike_of_shape same).label, around]
    rw [shape_eq, shape_eq, Shape.node.injEq] at same
    have member : (s, c.shape label target) ∈ (m.children.filter (·.2.kind.canHold target)).map
        fun child => (child.1, child.2.shape label target) := by
      rw [← same.2.2]
      exact mem_map.2 ⟨_, mem_filter.2 ⟨mem_children_of_child? isChild,
        canHold_above_at? (at?_of_visitAt below) holds⟩, rfl⟩
    rcases mem_map.1 member with ⟨⟨t, d⟩, isChild', equal⟩
    rw [Prod.mk.injEq] at equal
    rcases equal with ⟨rfl, sameChild⟩
    rcases ih sameChild.symm around' below with ⟨w, below', alike⟩
    exact ⟨w, visitAt_cons_eq_some.2 ⟨d, child?_of_mem (mem_of_mem_filter isChild'), below'⟩, alike⟩

theorem at?_of_shape (same : n.shape label target = m.shape label target)
    (there : n.at? a = some c) (holds : c.kind.canHold target = true) :
    ∃ d, m.at? a = some d ∧ d.kind = c.kind := by
  rcases exists_visitAt there [] [] with ⟨v, visited, rfl⟩
  rcases visitAt_of_shape same rfl visited holds with ⟨w, visited', _, sameKind⟩
  exact ⟨w.node, at?_of_visitAt visited', sameKind⟩

theorem flatMap_congr_of_map_eq {α β γ : Type} {key : α → γ} {f g : α → List β}
    {list list' : List α} (same : list.map key = list'.map key)
    (each : ∀ a ∈ list, ∀ b, key a = key b → f a = g b) : list.flatMap f = list'.flatMap g := by
  induction list generalizing list' with
  | nil =>
    cases list' with
    | nil => rfl
    | cons => cases same
  | cons a rest ih =>
    cases list' with
    | nil => cases same
    | cons b rest' =>
      rw [map_cons, map_cons, cons.injEq] at same
      rw [flatMap_cons, flatMap_cons, each a mem_cons_self b same.1,
        ih same.2 fun a member => each a (mem_cons_of_mem _ member)]

theorem view_walk_eq (label : Node → Node) (target : Kind) (trail : List Step)
    (ancestors : List Node) (n : Node) :
    (n.walk [] [target] trail ancestors).map (view label) =
      (if n.kind == target then [(trail, (n :: ancestors).map label)] else []) ++
        (n.children.filter (·.2.kind.canHold target)).flatMap fun child =>
          (child.2.walk [] [target] (child.1 :: trail) (n :: ancestors)).map (view label) := by
  have filtered (children : List (Step × Node)) (visit : Step × Node → List Visit) :
      (children.flatMap fun child =>
        if child.2.kind.canHold target then visit child else []).map (view label) =
        (children.filter (·.2.kind.canHold target)).flatMap
          fun child => (visit child).map (view label) := by
    induction children with
    | nil => rfl
    | cons child _ ih =>
      rw [flatMap_cons, map_append, ih, filter_cons]
      split <;> rfl
  rw [walk_eq, map_append]
  refine congrArg₂ _ (by split <;> rfl) (filtered n.children _)

/-- In nodes with the same shape the nodes of the kind are visited alike. -/
theorem view_walk {n m : Node} {trail : List Step} {ancestors ancestors' : List Node}
    (same : n.shape label target = m.shape label target)
    (around : ancestors.map label = ancestors'.map label) :
    (n.walk [] [target] trail ancestors).map (view label) =
      (m.walk [] [target] trail ancestors').map (view label) := by
  rw [shape_eq, shape_eq, Shape.node.injEq] at same
  have around' : (n :: ancestors).map label = (m :: ancestors').map label := by
    rw [map_cons, map_cons, same.2.1, around]
  rw [view_walk_eq, view_walk_eq, same.1, around']
  refine congrArg _ (flatMap_congr_of_map_eq same.2.2 fun c member d equal => ?_)
  rw [Prod.mk.injEq] at equal
  rw [equal.1]
  exact view_walk equal.2 around'
termination_by sizeOf n
decreasing_by exact sizeOf_lt_of_mem_children n _ (mem_of_mem_filter member)

theorem address_of_view {v w : Visit} (same : view label v = view label w) :
    v.address = w.address :=
  congrArg (fun seen => seen.1.reverse) same

/-! ## References -/

/-- There is nothing inside a reference that can be or hold a reference. -/
theorem below_reference : ∀ k ∈ Kind.reference.below, k.canHold .reference = false := by
  decide +kernel

theorem shape_update_reference {r : Reference} (r' : Reference)
    (found : n.at? a = some (.reference r)) :
    (n.update a fun _ => .reference r').shape outline .reference = n.shape outline .reference := by
  have own : IsOwn outline .reference := fun isChild hasParts _ alike =>
    outline_withChild _ _ isChild hasParts alike.kind alike.label
  have shapeIs (r : Reference) : (reference r).shape outline .reference =
      .node .reference .compoundType [] := shape_of_below below_reference
  exact shape_update own found rfl (Kind.canHold_self _) ((shapeIs r').trans (shapeIs r).symm)

theorem reference_of_shape {r : Reference}
    (same : n.shape label .reference = m.shape label .reference)
    (there : n.at? a = some (.reference r)) : ∃ r', m.at? a = some (.reference r') := by
  rcases at?_of_shape same there (Kind.canHold_self _) with ⟨d, there', sameKind⟩
  cases d <;> cases sameKind
  exact ⟨_, there'⟩

end Node

namespace Program

variable {label : Node → Node} {target : Kind} {p q : Program} {x : Visit × Field} {a b : Address}
  {r r' : Reference}

theorem program_putReference (found : p.at? a = some (.reference r)) :
    Node.program (p.put a (.reference r')) = (Node.program p).update a fun _ => .reference r' :=
  program_put_at? found rfl

/-! ## Fields -/

theorem shape_put {c c' : Node} {k : Kind} (own : Node.IsOwn label k) (found : p.at? a = some c)
    (inner : c.kind.isLeaf = false) (holds : c.kind.canHold k = true)
    (same : c'.shape label target = c.shape label target) :
    (Node.program (p.put a c')).shape label target = (Node.program p).shape label target := by
  rw [program_put_at? found (Node.alike_of_shape same).kind,
    Node.shape_update own found inner holds same]

theorem map_fst_partsOf (p : Program) :
    (p.partsOf Node.field? [.field]).map (·.1) = p.visits [.field] := by
  rw [partsOf, map_filterMap]
  conv_rhs => rw [← filterMap_some (l := p.visits [.field])]
  refine filterMap_congr fun v visited => ?_
  have isField := kind_of_visit visited
  cases isNode : v.node <;> rw [isNode] at isField <;> cases isField
  rfl

theorem forall₂_fields
    (same : (Node.program p).shape label .field = (Node.program q).shape label .field) :
    Forall₂ (fun x y => Node.view label x.1 = Node.view label y.1)
      (p.partsOf Node.field? [.field]) (q.partsOf Node.field? [.field]) := by
  have views : (p.visits [.field]).map (Node.view label) =
      (q.visits [.field]).map (Node.view label) := Node.view_walk same rfl
  rwa [← map_fst_partsOf, ← map_fst_partsOf, map_map, map_map, ← forall₂_eq_eq_eq,
    forall₂_map_left_iff, forall₂_map_right_iff] at views

theorem addresses_of_shape
    (same : (Node.program p).shape label .field = (Node.program q).shape label .field) :
    (p.partsOf Node.field? [.field]).map (·.1.address) =
      (q.partsOf Node.field? [.field]).map (·.1.address) := by
  rw [← forall₂_eq_eq_eq, forall₂_map_left_iff, forall₂_map_right_iff]
  exact (forall₂_fields same).imp fun _ _ => Node.address_of_view

theorem node_of_partsOf (member : x ∈ p.partsOf Node.field? [.field]) :
    x.1 ∈ p.visits [.field] ∧ x.1.node = .field x.2 := by
  rcases mem_filterMap.1 member with ⟨v, visited, isPart⟩
  rcases Option.map_eq_some_iff.1 isPart with ⟨f, isField, rfl⟩
  refine ⟨visited, ?_⟩
  cases isNode : v.node <;> rw [isNode] at isField <;> cases isField
  rfl

theorem inner?_of_partsOf (member : x ∈ p.partsOf Node.field? [.field]) :
    (Node.program p).inner? x.1.address = some (.field x.2) := by
  rcases node_of_partsOf member with ⟨visited, isNode⟩
  rw [Node.inner?_address visited (.inr (by decide +kernel)), isNode]

theorem field_apart {n : Node} {a b : Address} {f g : Field}
    (there : n.inner? a = some (.field f)) (there' : n.inner? b = some (.field g))
    (other : b ≠ a) : ¬ a <+: b :=
  Node.not_prefix_of_below there there' other (by simp only [Node.kind]; decide +kernel)

end Program

end BinaryLayout.IR
