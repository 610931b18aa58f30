import BinaryLayout.Proofs.IR.Address

/-!
# What a walk visits

`Node.everything` has the visits of all nodes in a node, and `Node.visitAt` the one at an address.
A walk leaves out the branches that cannot hold what it looks for.

Main statements: a walk makes those visits in everything that its pattern asks for, in their order.
They are the visits at addresses of nodes of the last kind of the pattern that have the other kinds
above them, one below the other, and none that is to be skipped.
-/

namespace BinaryLayout.IR

open List

namespace Node

/-- A node and what is in it, without the parts of expressions. -/
def contents (n : Node) : List Node :=
  if n.kind = .expression then [n]
  else n :: n.children.attach.flatMap fun ⟨(_, child), _⟩ => child.contents
termination_by sizeOf n
decreasing_by
  rename_i member
  exact Node.sizeOf_lt_of_mem_children n _ member

theorem mem_contents_of_inner? {a : Address} {n m : Node} (there : n.inner? a = some m) :
    m ∈ n.contents := by
  induction a generalizing n with
  | nil =>
    cases there
    rw [contents]
    split <;> simp
  | cons s rest ih =>
    rcases inner?_cons_eq_some.1 there with ⟨outer, child, isChild, below⟩
    rw [contents, if_neg outer]
    refine mem_cons_of_mem _ (mem_flatMap.2
      ⟨⟨(s, child), mem_children_of_child? isChild⟩, mem_attach .., ih below⟩)

/-! ## Visits at addresses -/

def visitAt (trail : List Step) (ancestors : List Node) : Address → Node → Option Visit
  | [], n => some ⟨trail, n, ancestors⟩
  | s :: rest, n => (n.child? s).bind (visitAt (s :: trail) (n :: ancestors) rest)

/-- A node and everything that is in it. -/
def everything (trail : List Step) (ancestors : List Node) (n : Node) : List Visit :=
  ⟨trail, n, ancestors⟩ :: n.children.attach.flatMap fun ⟨(step, child), _⟩ =>
    child.everything (step :: trail) (n :: ancestors)
termination_by sizeOf n
decreasing_by
  rename_i member
  exact sizeOf_lt_of_mem_children n _ member

section Visits

variable {trail : List Step} {ancestors : List Node} {a : Address} {n m : Node} {v : Visit}

theorem visitAt_cons_eq_some {s : Step} :
    n.visitAt trail ancestors (s :: a) = some v ↔
      ∃ c, n.child? s = some c ∧ c.visitAt (s :: trail) (n :: ancestors) a = some v := by
  rw [visitAt, Option.bind_eq_some_iff]

theorem node_visitAt : (n.visitAt trail ancestors a).map (·.node) = n.at? a := by
  induction a generalizing n trail ancestors with
  | nil => rfl
  | cons s rest ih =>
    rw [visitAt, at?]
    cases n.child? s with
    | none => rfl
    | some c => exact ih

theorem at?_of_visitAt (there : n.visitAt trail ancestors a = some v) :
    n.at? a = some v.node := by
  rw [← node_visitAt, there]
  rfl

theorem trail_of_visitAt (there : n.visitAt trail ancestors a = some v) :
    v.trail = a.reverse ++ trail := by
  induction a generalizing n trail ancestors with
  | nil =>
    cases there
    rfl
  | cons s rest ih =>
    rcases visitAt_cons_eq_some.1 there with ⟨c, _, below⟩
    rw [ih below, reverse_cons, append_assoc]
    rfl

theorem suffix_of_visitAt (there : n.visitAt trail ancestors a = some v) :
    ancestors <:+ v.ancestors := by
  induction a generalizing n trail ancestors with
  | nil =>
    cases there
    exact suffix_rfl
  | cons s rest ih =>
    rcases visitAt_cons_eq_some.1 there with ⟨c, _, below⟩
    exact (suffix_cons n ancestors).trans (ih below)

theorem visitAt_append {b : Address} :
    n.visitAt trail ancestors (a ++ b) =
      (n.visitAt trail ancestors a).bind fun v => v.node.visitAt v.trail v.ancestors b := by
  induction a generalizing n trail ancestors with
  | nil => rfl
  | cons s rest ih =>
    rw [cons_append, visitAt, visitAt]
    cases n.child? s with
    | none => rfl
    | some c => exact ih

/-- One step further than a visit. -/
theorem visitAt_step {s : Step} {c : Node} (there : n.visitAt trail ancestors a = some v)
    (member : (s, c) ∈ v.node.children) :
    n.visitAt trail ancestors (a ++ [s]) = some ⟨s :: v.trail, c, v.node :: v.ancestors⟩ := by
  rw [visitAt_append, there, Option.bind_some, visitAt, child?_of_mem member]
  rfl

theorem exists_visitAt (there : n.at? a = some m) (trail : List Step) (ancestors : List Node) :
    ∃ v, n.visitAt trail ancestors a = some v ∧ v.node = m := by
  rw [← @node_visitAt trail ancestors] at there
  exact Option.map_eq_some_iff.1 there

/-- The nodes around a visit stand on the way to it. -/
theorem at?_of_mem_ancestors (there : n.visitAt trail ancestors a = some v)
    (member : m ∈ v.ancestors) :
    m ∈ ancestors ∨ ∃ before after, a = before ++ after ∧ n.at? before = some m ∧
      m.at? after = some v.node := by
  induction a generalizing n trail ancestors with
  | nil =>
    cases there
    exact .inl member
  | cons s rest ih =>
    rcases visitAt_cons_eq_some.1 there with ⟨c, isChild, below⟩
    rcases ih below with around | ⟨before, after, rfl, found, further⟩
    · rcases mem_cons.1 around with rfl | outside
      · exact .inr ⟨[], s :: rest, rfl, rfl, at?_of_visitAt there⟩
      · exact .inl outside
    · exact .inr ⟨s :: before, after, rfl, at?_cons_eq_some.2 ⟨c, isChild, found⟩, further⟩

theorem flatMap_attach' {β : Type} (children : List (Step × Node)) (visit : Step × Node → List β) :
    (children.attach.flatMap fun child => visit child.1) = children.flatMap visit := by
  rw [← flatMap_map, attach_map_subtype_val]

theorem everything_eq (trail : List Step) (ancestors : List Node) (n : Node) :
    n.everything trail ancestors = ⟨trail, n, ancestors⟩ :: n.children.flatMap fun child =>
      child.2.everything (child.1 :: trail) (n :: ancestors) := by
  rw [everything, ← flatMap_attach']

theorem mem_everything {trail : List Step} {ancestors : List Node} {n : Node} :
    v ∈ n.everything trail ancestors ↔ ∃ a, n.visitAt trail ancestors a = some v := by
  rw [everything_eq, mem_cons, mem_flatMap]
  constructor
  · rintro (rfl | ⟨⟨s, c⟩, isChild, below⟩)
    · exact ⟨[], rfl⟩
    · rcases mem_everything.1 below with ⟨a, there⟩
      exact ⟨s :: a, visitAt_cons_eq_some.2 ⟨c, child?_of_mem isChild, there⟩⟩
  · rintro ⟨_ | ⟨s, a⟩, there⟩
    · cases there
      exact .inl rfl
    · rcases visitAt_cons_eq_some.1 there with ⟨c, found, below⟩
      have isChild := mem_children_of_child? found
      exact .inr ⟨(s, c), isChild, mem_everything.2 ⟨a, below⟩⟩
termination_by sizeOf n
decreasing_by all_goals exact sizeOf_lt_of_mem_children n _ isChild

end Visits

end Node

/-! ## Branches that are left out -/

/-- A node that is asked for: one of a kind, inside of nodes of other kinds that are inside of each
other, and below none of the kinds to skip. -/
def Visit.Wanted (outer : List Kind) (target : Kind) (skip : List Kind) (v : Visit) : Prop :=
  v.node.kind = target ∧ outer <+ (v.ancestors.map Node.kind).reverse ∧
    ∀ m ∈ v.ancestors, m.kind ∉ skip

instance (outer : List Kind) (target : Kind) (skip : List Kind) :
    DecidablePred (Visit.Wanted outer target skip) :=
  fun _ => inferInstanceAs (Decidable (_ ∧ _ ∧ _))

namespace Node

variable {n c m : Node} {s : Step} {a : Address} {k : Kind} {avoid : Node → Prop}
  {skip : List Kind} {trail : List Step} {ancestors : List Node} {v : Visit}

/-- Visit what a pattern asks for in a node, going into every branch. -/
def search (skip : List Kind) (pattern : List Kind) (trail : List Step) (ancestors : List Node)
    (n : Node) : List Visit :=
  let here := if isTarget pattern n.kind then [⟨trail, n, ancestors⟩] else []
  let pattern := remaining pattern n.kind
  if skip.contains n.kind then here
  else
    here ++ n.children.attach.flatMap fun ⟨(step, child), _⟩ =>
      search skip pattern (step :: trail) (n :: ancestors) child
termination_by sizeOf n
decreasing_by
  rename_i member
  exact Node.sizeOf_lt_of_mem_children n _ member

theorem search_eq_nil {skip pattern : List Kind} {trail : List Step} {ancestors : List Node}
    {n : Node} (cannot : n.kind.canHold (pattern.headD .program) = false) :
    n.search skip pattern trail ancestors = [] := by
  have other : n.kind ≠ pattern.headD .program := by
    intro same
    rw [← same, Kind.canHold_self] at cannot
    cases cannot
  have notTarget : isTarget pattern n.kind = false := by
    rcases pattern with _ | ⟨first, _ | ⟨second, rest⟩⟩
    · rfl
    · simpa [isTarget] using other
    · rfl
  have unchanged : remaining pattern n.kind = pattern := by
    rcases pattern with _ | ⟨first, _ | ⟨second, rest⟩⟩
    · rfl
    · rfl
    · exact if_neg other
  rw [search, notTarget, unchanged]
  simp only [Bool.false_eq_true, if_false, nil_append]
  split
  · rfl
  · rw [flatMap_eq_nil_iff]
    rintro ⟨child, member⟩ _
    refine search_eq_nil ?_
    by_contra holds
    rw [Kind.canHold_of_below (kind_of_mem_children n child member)
      (Bool.not_eq_false _ ▸ holds)] at cannot
    cases cannot
termination_by sizeOf n
decreasing_by exact Node.sizeOf_lt_of_mem_children n _ member

/-- Leaving out branches that cannot hold what is looked for loses nothing. -/
theorem walk_eq_search (skip pattern : List Kind) (trail : List Step) (ancestors : List Node)
    (n : Node) : n.walk skip pattern trail ancestors = n.search skip pattern trail ancestors := by
  rw [walk, search]
  split
  · rfl
  · congr 2
    funext child
    rcases child with ⟨⟨_, child⟩, member⟩
    simp only
    by_cases canHold : child.kind.canHold ((remaining pattern n.kind).headD .program) = true
    · rw [if_pos canHold]
      exact walk_eq_search ..
    · rw [if_neg canHold]
      exact (search_eq_nil (Bool.not_eq_true _ ▸ canHold)).symm
termination_by sizeOf n
decreasing_by exact Node.sizeOf_lt_of_mem_children n _ member

/-- What is left of the kinds that have to be above, after a node. -/
theorem remaining_snoc (outer : List Kind) (target k : Kind) :
    ∃ left, remaining (outer ++ [target]) k = left ++ [target] ∧
      ∀ more, outer <+ k :: more ↔ left <+ more := by
  rcases outer with _ | ⟨first, rest⟩
  · exact ⟨[], rfl, by simp⟩
  · have isStep : remaining (first :: rest ++ [target]) k =
        if k = first then rest ++ [target] else first :: rest ++ [target] := by
      cases rest <;> rfl
    rw [isStep]
    split
    · rename_i same
      subst same
      exact ⟨rest, rfl, fun more => cons_sublist_cons⟩
    · rename_i other
      refine ⟨first :: rest, rfl, fun more => ⟨fun below => ?_, fun below => below.cons k⟩⟩
      rcases sublist_cons_iff.1 below with inRest | ⟨_, same, _⟩
      · exact inRest
      · cases same
        exact (other rfl).elim

theorem isTarget_snoc (outer : List Kind) (target k : Kind) :
    isTarget (outer ++ [target]) k = (decide (outer = []) && k == target) := by
  rcases outer with _ | ⟨_, _ | _⟩ <;> rfl

/-- Going into every branch finds what is asked for.  The kinds that are left after the nodes above
are those that have to follow them. -/
theorem search_eq_filter {outer left : List Kind} (target : Kind) {skip : List Kind}
    (trail : List Step) (ancestors : List Node) (n : Node)
    (isLeft : ∀ more, outer <+ (ancestors.map kind).reverse ++ more ↔ left <+ more)
    (entered : ∀ m ∈ ancestors, m.kind ∉ skip) :
    n.search skip (left ++ [target]) trail ancestors =
      (n.everything trail ancestors).filter (Visit.Wanted outer target skip) := by
  have here : isTarget (left ++ [target]) n.kind =
      decide (Visit.Wanted outer target skip ⟨trail, n, ancestors⟩) := by
    have found := isLeft []
    rw [append_nil, sublist_nil] at found
    rw [isTarget_snoc, Bool.eq_iff_iff, decide_eq_true_iff, Bool.and_eq_true, decide_eq_true_iff,
      beq_iff_eq, ← found]
    exact ⟨fun ⟨isAbove, same⟩ => ⟨same, isAbove, entered⟩,
      fun ⟨same, isAbove, _⟩ => ⟨isAbove, same⟩⟩
  rw [search, everything_eq, filter_cons, ← here, filter_flatMap]
  rcases remaining_snoc left target n.kind with ⟨next, isNext, follows⟩
  by_cases skipped : n.kind ∈ skip
  · have none : (n.children.flatMap fun child => ((child.2.everything (child.1 :: trail)
        (n :: ancestors)).filter (Visit.Wanted outer target skip))) = [] := by
      simp only [flatMap_eq_nil_iff, filter_eq_nil_iff, decide_eq_true_eq]
      intro child _ v below wanted
      rcases mem_everything.1 below with ⟨a, there⟩
      exact wanted.2.2 n ((suffix_of_visitAt there).subset mem_cons_self) skipped
    rw [none, if_pos (by simpa using skipped)]
  · rw [if_neg (by simpa using skipped), isNext, ← flatMap_attach' n.children]
    have below : (n.children.attach.flatMap fun child =>
        child.1.2.search skip (next ++ [target]) (child.1.1 :: trail) (n :: ancestors)) =
        n.children.attach.flatMap fun child => (child.1.2.everything (child.1.1 :: trail)
          (n :: ancestors)).filter (Visit.Wanted outer target skip) := by
      refine flatMap_congr fun child _ => search_eq_filter target _ _ child.1.2 (fun more => ?_) ?_
      · rw [map_cons, reverse_cons, append_assoc, isLeft]
        exact follows more
      · exact forall_mem_cons.2 ⟨skipped, entered⟩
    split
    · exact congrArg _ below
    · exact below
termination_by sizeOf n
decreasing_by exact sizeOf_lt_of_mem_children n _ child.2

theorem walk_eq (skip : List Kind) (k : Kind) (trail : List Step) (ancestors : List Node)
    (n : Node) :
    n.walk skip [k] trail ancestors =
      (if n.kind == k then [⟨trail, n, ancestors⟩] else []) ++
        if skip.contains n.kind then [] else n.children.flatMap fun child =>
          if child.2.kind.canHold k then
            child.2.walk skip [k] (child.1 :: trail) (n :: ancestors)
          else [] := by
  rw [walk, ← flatMap_attach']
  split
  · rw [append_nil]
    rfl
  · rfl

end Node

namespace Program

variable {p : Program} {outer skip : List Kind} {k target : Kind} {v : Visit} {a : Address}
  {m : Node}

theorem visits_eq_filter (p : Program) (outer : List Kind) (target : Kind) (skip : List Kind) :
    p.visits (outer ++ [target]) skip =
      ((Node.program p).everything [] []).filter (Visit.Wanted outer target skip) := by
  rw [visits, Node.walk_eq_search]
  exact Node.search_eq_filter target [] [] _ (fun _ => Iff.rfl) (forall_mem_nil _)

theorem address_of_visitAt (there : (Node.program p).visitAt [] [] a = some v) : v.address = a := by
  rw [Visit.address, Node.trail_of_visitAt there, append_nil, reverse_reverse]

theorem mem_visits : v ∈ p.visits (outer ++ [target]) skip ↔
    (Node.program p).visitAt [] [] v.address = some v ∧ v.Wanted outer target skip := by
  rw [visits_eq_filter, mem_filter, Node.mem_everything, decide_eq_true_iff]
  refine and_congr_left fun _ => ⟨?_, fun there => ⟨_, there⟩⟩
  rintro ⟨a, there⟩
  rwa [address_of_visitAt there]

theorem mem_visits_kind : v ∈ p.visits [k] skip ↔
    (Node.program p).visitAt [] [] v.address = some v ∧ v.node.kind = k ∧
      ∀ m ∈ v.ancestors, m.kind ∉ skip := by
  have isPattern := @mem_visits p [] skip k v
  simpa [Visit.Wanted] using isPattern

theorem kind_of_visit (visited : v ∈ p.visits [k] skip) : v.node.kind = k :=
  (mem_visits_kind.1 visited).2.1

theorem mem_visits_of_visitAt (there : (Node.program p).visitAt [] [] a = some v)
    (unskipped : ∀ m ∈ v.ancestors, m.kind ∉ skip) : v ∈ p.visits [v.node.kind] skip :=
  mem_visits_kind.2 ⟨(address_of_visitAt there).symm ▸ there, rfl, unskipped⟩

end Program

/-! ## Ways through a program -/

namespace Node

variable {n c m : Node} {s : Step} {a : Address} {k : Kind} {avoid : Node → Prop}
  {skip : List Kind} {trail : List Step} {ancestors : List Node} {v : Visit}

/-- No node on the way to an address, without its end, is one to avoid. -/
def Avoids (avoid : Node → Prop) : Address → Node → Prop
  | [], _ => True
  | s :: rest, n => ¬ avoid n ∧ ∀ c, n.child? s = some c → Avoids avoid rest c

/-- The way to a node leads through no expression. -/
theorem avoids_expression (there : n.inner? a = some m) : Avoids (·.kind = .expression) a n := by
  induction a generalizing n with
  | nil => trivial
  | cons s rest ih =>
    rcases inner?_cons_eq_some.1 there with ⟨outer, _, isChild, below⟩
    refine ⟨outer, fun c again => ?_⟩
    cases isChild.symm.trans again
    exact ih below

/-- The nodes around a visit are those on the way to it. -/
theorem avoids_iff (there : n.visitAt trail ancestors a = some v)
    (around : ∀ m ∈ ancestors, ¬ avoid m) :
    Avoids avoid a n ↔ ∀ m ∈ v.ancestors, ¬ avoid m := by
  induction a generalizing n trail ancestors with
  | nil =>
    cases there
    exact iff_of_true trivial around
  | cons s rest ih =>
    rcases visitAt_cons_eq_some.1 there with ⟨c, isChild, below⟩
    have onward : Avoids avoid (s :: rest) n ↔ ¬ avoid n ∧ Avoids avoid rest c :=
      and_congr_right fun _ => ⟨fun each => each c isChild, fun further d again => by
        cases isChild.symm.trans again
        exact further⟩
    rw [onward]
    by_cases avoided : avoid n
    · refine iff_of_false (fun both => both.1 avoided) fun none => ?_
      exact none n ((suffix_of_visitAt below).subset mem_cons_self) avoided
    · rw [ih below (forall_mem_cons.2 ⟨avoided, around⟩), and_iff_right avoided]

theorem canHold_of_mem_ancestors (there : n.visitAt [] [] a = some v) (above : m ∈ v.ancestors) :
    m.kind.canHold v.node.kind = true := by
  rcases at?_of_mem_ancestors there above with outside | ⟨_, _, _, _, below⟩
  · cases outside
  · exact canHold_of_at? below

theorem inner?_of_avoids (there : n.at? a = some m) (outside : Avoids (·.kind = .expression) a n) :
    n.inner? a = some m := by
  induction a generalizing n with
  | nil => exact there
  | cons s rest ih =>
    rcases at?_cons_eq_some.1 there with ⟨c, isChild, below⟩
    exact inner?_cons_eq_some.2 ⟨outside.1, c, isChild, ih below (outside.2 c isChild)⟩

/-- A walk that does not go into expressions, or looks for what is in none. -/
def StaysOutside (skip : List Kind) (k : Kind) : Prop :=
  .expression ∈ skip ∨ Kind.expression.canHold k = false

/-- A visited node stands at the address of the visit. -/
theorem inner?_address {p : Program} (visited : v ∈ p.visits [k] skip)
    (outside : StaysOutside skip k) : (Node.program p).inner? v.address = some v.node := by
  rcases Program.mem_visits_kind.1 visited with ⟨there, rfl, unskipped⟩
  refine inner?_of_avoids (at?_of_visitAt there) ((avoids_iff there (forall_mem_nil _)).2 ?_)
  intro m above isExpression
  rcases outside with skipped | cannot
  · exact unskipped m above (isExpression ▸ skipped)
  · have holds := canHold_of_mem_ancestors there above
    rw [isExpression, cannot] at holds
    cases holds

/-- A node with no parts that can hold another one's kind is not above it. -/
theorem not_prefix_of_below {b : Address} {c : Node} (there : n.inner? a = some c)
    (there' : n.inner? b = some m) (other : b ≠ a)
    (holdsNone : ∀ k ∈ c.kind.below, k.canHold m.kind = false) : ¬ a <+: b := by
  rintro ⟨_ | ⟨s, _⟩, rfl⟩
  · exact other (append_nil a)
  · rw [inner?_append, there, Option.bind_some] at there'
    rcases inner?_cons_eq_some.1 there' with ⟨_, _, isChild, below⟩
    exact Bool.eq_false_iff.1 (holdsNone _ (kind_of_mem_children c _
      (mem_children_of_child? isChild))) (canHold_of_inner? below)

end Node

/-! ## Expressions in expressions -/

/-- An expression in another one, or the expression itself. -/
inductive Inside : Expression → Expression → Prop
  | here {e : Expression} : Inside e e
  | argument {operator : Option Operator} {args : List Expression} {word : Option Word}
      {location : Option Location} {note : Annotation} {arg part : Expression}
      (member : arg ∈ args) (inner : Inside arg part) :
      Inside (.function operator args word location note) part

theorem Inside.exists_at? {e part : Expression} (inside : Inside e part) :
    ∃ a, (Node.expression e).at? a = some (.expression part) := by
  induction inside with
  | here => exact ⟨[], rfl⟩
  | @argument operator args word location note arg _ member _ ih =>
    -- an argument is two steps away: the call is a node of its own
    let call : Node := .call ⟨operator, args, word, location⟩
    rcases mem_iff_getElem?.1 member with ⟨index, isArgument⟩
    have isCall : (⟨"function", 0⟩, call) ∈
        (Node.expression (.function operator args word location note)).children :=
      mem_append_left _ (mem_singleton_self _)
    have inCall : (⟨"args", index⟩, Node.expression arg) ∈ call.children :=
      mem_append_right _ (mem_childrenIn_iff.2 ⟨index, arg, rfl, isArgument, rfl⟩)
    rcases ih with ⟨a, below⟩
    exact ⟨_ :: _ :: a, Node.at?_cons_eq_some.2 ⟨_, Node.child?_of_mem isCall,
      Node.at?_cons_eq_some.2 ⟨_, Node.child?_of_mem inCall, below⟩⟩⟩

theorem mem_contents_of_find {p : Program} {name : CanonicalName} {found : Found}
    (run : p.find name = .ok found) : found.object.node ∈ (Node.program p).contents :=
  Node.mem_contents_of_inner? (Program.inner?_of_find run)

end BinaryLayout.IR
