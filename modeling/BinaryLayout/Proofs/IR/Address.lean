import BinaryLayout.Proofs.IR.Part

/-!
# Replacing what an address leads to

`Node.inner?` follows an address without going into an expression, and `Node.top?` gives the
expression at its end.

Main statements: a node that is put at an address is found there, whatever is at an address apart
from it is found as before, and if both nodes have the same skeleton, so has the whole.  A name
leads to an address at which the object with that name stands.
-/

namespace BinaryLayout.IR

open Checked List Option

namespace Node

variable {a rest : Address} {n c n' : Node} {e : Expression} {s : Step}

/-- The node that an address leads to without going into an expression. -/
def inner? : Address → Node → Option Node
  | [], n => some n
  | s :: rest, n => if n.kind = .expression then none else (n.child? s).bind (inner? rest)

/-- The expression that an address leads to without going into another one. -/
def top? (a : Address) (n : Node) : Option Expression :=
  (n.inner? a).bind expression?

theorem top?_eq_some : n.top? a = some e ↔ n.inner? a = some (.expression e) := by
  rw [top?, bind_eq_some_iff]
  constructor
  · rintro ⟨c, found, isExpression⟩
    cases c <;> cases isExpression
    exact found
  · intro found
    exact ⟨_, found, rfl⟩

theorem expression?_of_kind_ne (other : n.kind ≠ .expression) : n.expression? = none := by
  cases n with
  | expression e => exact (other rfl).elim
  | _ => rfl

theorem inner?_cons_eq_some :
    n.inner? (s :: rest) = some c ↔
      n.kind ≠ .expression ∧ ∃ child, n.child? s = some child ∧ child.inner? rest = some c := by
  rw [inner?]
  split
  · simp [*]
  · simp [*, bind_eq_some_iff]

theorem inner?_append (a b : Address) (n : Node) :
    n.inner? (a ++ b) = (n.inner? a).bind (inner? b) := by
  induction a generalizing n with
  | nil => rfl
  | cons s rest ih =>
    simp only [cons_append, inner?]
    split
    · rfl
    · cases n.child? s with
      | none => rfl
      | some child => exact ih child

theorem at?_cons_eq_some :
    n.at? (s :: rest) = some c ↔ ∃ child, n.child? s = some child ∧ child.at? rest = some c := by
  rw [at?, bind_eq_some_iff]

theorem at?_append (a b : Address) (n : Node) : n.at? (a ++ b) = (n.at? a).bind (at? b) := by
  induction a generalizing n with
  | nil => rfl
  | cons s rest ih =>
    rw [cons_append, at?, at?]
    cases n.child? s with
    | none => rfl
    | some child => exact ih child

theorem at?_of_inner? (found : n.inner? a = some c) : n.at? a = some c := by
  induction a generalizing n with
  | nil => exact found
  | cons s rest ih =>
    rcases inner?_cons_eq_some.1 found with ⟨_, _, isChild, below⟩
    exact at?_cons_eq_some.2 ⟨_, isChild, ih below⟩

theorem canHold_above_at? {k : Kind} (there : n.at? a = some c) (holds : c.kind.canHold k = true) :
    n.kind.canHold k = true := by
  induction a generalizing n with
  | nil =>
    cases there
    exact holds
  | cons s rest ih =>
    rcases at?_cons_eq_some.1 there with ⟨_, isChild, below⟩
    exact Kind.canHold_of_below (kind_of_mem_children n _ (mem_children_of_child? isChild))
      (ih below)

theorem canHold_of_at? (there : n.at? a = some c) : n.kind.canHold c.kind = true :=
  canHold_above_at? there c.kind.canHold_self

theorem canHold_of_inner? (there : n.inner? a = some c) : n.kind.canHold c.kind = true :=
  canHold_of_at? (at?_of_inner? there)

/-- The expressions below a node are below one with the same children that can hold some. -/
theorem top?_of_children (outer' : n'.kind ≠ .expression)
    (children : ∀ s c, c.kind.canHold .expression = true → (s, c) ∈ n.children →
      (s, c) ∈ n'.children)
    (found : n.top? (s :: rest) = some e) : n'.top? (s :: rest) = some e := by
  rw [top?_eq_some] at found ⊢
  rcases inner?_cons_eq_some.1 found with ⟨_, child, isChild, below⟩
  exact inner?_cons_eq_some.2 ⟨outer', child, child?_of_mem (children s child
    (canHold_of_inner? below) (mem_children_of_child? isChild)), below⟩

theorem top?_congr (outer : n.kind ≠ .expression) (same : n'.kind = n.kind)
    (children : ∀ s c, c.kind.canHold .expression = true →
      ((s, c) ∈ n'.children ↔ (s, c) ∈ n.children)) (a : Address) : n'.top? a = n.top? a := by
  have outer' : n'.kind ≠ .expression := by rwa [same]
  cases a with
  | nil =>
    rw [top?, top?, inner?, inner?, bind_some, bind_some,
      expression?_of_kind_ne outer, expression?_of_kind_ne outer']
  | cons s =>
    ext e
    exact ⟨top?_of_children outer fun s c holds => (children s c holds).1,
      top?_of_children outer' fun s c holds => (children s c holds).2⟩

section Update

variable {a : Address} {n c c' : Node} {b : Address}

theorem kind_update_at? (found : n.at? a = some c) (same : c'.kind = c.kind) :
    (n.update a fun _ => c').kind = n.kind := by
  cases a with
  | nil =>
    cases found
    exact same
  | cons =>
    rcases at?_cons_eq_some.1 found with ⟨_, isChild, _⟩
    rw [update, isChild]
    exact kind_withChild ..

theorem kind_update (found : n.inner? a = some c) (same : c'.kind = c.kind) :
    (n.update a fun _ => c').kind = n.kind :=
  kind_update_at? (at?_of_inner? found) same

theorem isLeaf_above (found : n.at? a = some c) (inner : c.kind.isLeaf = false) :
    n.kind.isLeaf = false := by
  cases a with
  | nil =>
    cases found
    exact inner
  | cons =>
    rcases at?_cons_eq_some.1 found with ⟨_, isChild, _⟩
    exact isLeaf_of_mem (mem_children_of_child? isChild)

/-- The children of a node in which something further down was replaced. -/
theorem child?_update (found : n.at? (s :: rest) = some c) (inner : c.kind.isLeaf = false)
    (same : c'.kind = c.kind) (t : Step) :
    (n.update (s :: rest) fun _ => c').child? t =
      if t = s then (n.child? s).map (update rest fun _ => c') else n.child? t := by
  rcases at?_cons_eq_some.1 found with ⟨_, isChild, below⟩
  rw [update, isChild]
  exact child?_withChild isChild (isLeaf_above below inner) (kind_update_at? below same) t

theorem update_self (found : n.at? a = some c) : (n.update a fun _ => c) = n := by
  induction a generalizing n with
  | nil =>
    cases found
    rfl
  | cons s rest ih =>
    rcases at?_cons_eq_some.1 found with ⟨_, isChild, below⟩
    rw [update, isChild]
    simp only [ih below]
    exact withChild_self _ _ (mem_children_of_child? isChild)

section Alike

variable (found : n.inner? a = some c) (inner : c.kind.isLeaf = false) (same : c'.kind = c.kind)

include found inner same

/-- What was put at an address is found there. -/
theorem inner?_update_append (b : Address) :
    (n.update a fun _ => c').inner? (a ++ b) = c'.inner? b := by
  induction a generalizing n with
  | nil => rfl
  | cons s rest ih =>
    rcases inner?_cons_eq_some.1 found with ⟨outer, _, isChild, below⟩
    rw [cons_append, inner?, kind_update found same, if_neg outer,
      child?_update (at?_of_inner? found) inner same, if_pos rfl, isChild]
    exact ih below

theorem inner?_update_of_apart (notAbove : ¬ a <+: b) (notBelow : ¬ b <+: a) :
    (n.update a fun _ => c').inner? b = n.inner? b := by
  induction a generalizing n b with
  | nil => exact (notAbove nil_prefix).elim
  | cons s rest ih =>
    cases b with
    | nil => exact (notBelow nil_prefix).elim
    | cons t =>
      rcases inner?_cons_eq_some.1 found with ⟨outer, _, isChild, below⟩
      rw [inner?, inner?, kind_update found same, child?_update (at?_of_inner? found) inner same]
      by_cases equal : t = s
      · subst equal
        rw [if_pos rfl, isChild]
        simp only [outer, if_false, map_some, bind_some]
        refine ih below (fun above => notAbove ?_) fun under => notBelow ?_
        · exact (prefix_cons_inj t).2 above
        · exact (prefix_cons_inj t).2 under
      · rw [if_neg equal]

theorem kind_inner?_update (onTheWay : b <+: a) :
    ((n.update a fun _ => c').inner? b).map kind = (n.inner? b).map kind := by
  induction a generalizing n b with
  | nil =>
    cases prefix_nil.1 onTheWay
    cases found
    exact congrArg some same
  | cons s rest ih =>
    cases b with
    | nil => exact congrArg some (kind_update found same)
    | cons =>
      rcases cons_prefix_cons.1 onTheWay with ⟨rfl, further⟩
      rcases inner?_cons_eq_some.1 found with ⟨outer, _, isChild, below⟩
      rw [inner?, inner?, kind_update found same, child?_update (at?_of_inner? found) inner same,
        if_pos rfl, if_neg outer, if_neg outer, isChild]
      exact ih below further

theorem skeleton_update (alike : c'.skeleton = c.skeleton) :
    (n.update a fun _ => c').skeleton = n.skeleton := by
  induction a generalizing n with
  | nil =>
    cases found
    exact alike
  | cons s rest ih =>
    rcases inner?_cons_eq_some.1 found with ⟨outer, _, isChild, below⟩
    rw [update, isChild]
    exact skeleton_withChild _ _ (mem_children_of_child? isChild)
      (isLeaf_above (at?_of_inner? below) inner) (kind_update below same) (ih below)

/-- What is put somewhere changes no expression above it or apart from it: above a node there is
no expression at all. -/
theorem top?_update_of_not_prefix (notAbove : ¬ a <+: b) :
    (n.update a fun _ => c').top? b = n.top? b := by
  by_cases below : b <+: a
  · have kinds := kind_inner?_update found inner same below
    rcases below with ⟨_ | ⟨s, _⟩, rfl⟩
    · exact (notAbove (by simp)).elim
    · rw [inner?_append] at found
      rcases bind_eq_some_iff.1 found with ⟨_, isMiddle, further⟩
      rcases inner?_cons_eq_some.1 further with ⟨notExpression, _⟩
      rw [isMiddle] at kinds
      rcases map_eq_some_iff.1 kinds with ⟨_, isAfter, afterKind⟩
      rw [top?, top?, isMiddle, isAfter]
      simp only [bind_some]
      rw [expression?_of_kind_ne notExpression, expression?_of_kind_ne (by rwa [afterKind])]
  · rw [top?, top?, inner?_update_of_apart found inner same notAbove below]

/-- A node that is put in the place of another with the same expressions in it changes no
expression. -/
theorem top?_update_alike (alike : ∀ rest, c'.top? rest = c.top? rest) (b : Address) :
    (n.update a fun _ => c').top? b = n.top? b := by
  by_cases above : a <+: b
  · rcases above with ⟨rest, rfl⟩
    have there := alike rest
    rw [top?, top?] at there
    rw [top?, top?, inner?_update_append found inner same, inner?_append, found]
    exact there
  · exact top?_update_of_not_prefix found inner same above

end Alike

theorem top?_update_self {e e' : Expression} (found : n.top? a = some e) :
    (n.update a fun _ => .expression e').top? a = some e' := by
  rw [top?_eq_some] at found
  have sameKind : (Node.expression e').kind = (Node.expression e).kind := rfl
  have there := inner?_update_append found rfl sameKind []
  rw [append_nil] at there
  rw [top?_eq_some, there, inner?]

theorem top?_update_of_ne {e e' : Expression} (found : n.top? a = some e) (other : b ≠ a) :
    (n.update a fun _ => .expression e').top? b = n.top? b := by
  rw [top?_eq_some] at found
  have sameKind : (Node.expression e').kind = (Node.expression e).kind := rfl
  by_cases above : a <+: b
  · -- below an expression there is no other that counts
    rcases above with ⟨_ | ⟨s, _⟩, rfl⟩
    · exact (other (append_nil a)).elim
    · rw [top?, top?, inner?_update_append found rfl sameKind, inner?_append, found]
      rfl
  · exact top?_update_of_not_prefix found rfl sameKind above

end Update

end Node

/-! ## Programs -/

namespace Program

/-- The expression that an address leads to without going into another one. -/
def expressionAt? (p : Program) (a : Address) : Option Expression :=
  (Node.program p).top? a

section Put

variable {p : Program} {a : Address} {c c' : Node}

theorem at?_of_expressionAt? {e : Expression} (there : p.expressionAt? a = some e) :
    p.at? a = some (.expression e) :=
  Node.at?_of_inner? (Node.top?_eq_some.1 there)

theorem program_put_at? (found : p.at? a = some c) (same : c'.kind = c.kind) :
    Node.program (p.put a c') = (Node.program p).update a fun _ => c' := by
  have kind := Node.kind_update_at? found same
  rw [put]
  cases updated : (Node.program p).update a fun _ => c' with
  | program q => rfl
  | _ =>
    rw [updated] at kind
    cases kind

theorem program_put (found : (Node.program p).inner? a = some c) (same : c'.kind = c.kind) :
    Node.program (p.put a c') = (Node.program p).update a fun _ => c' :=
  program_put_at? (Node.at?_of_inner? found) same

theorem put_self (found : p.at? a = some c) : p.put a c = p := by
  have updated := program_put_at? found rfl
  rw [Node.update_self found] at updated
  exact Node.program.inj updated

theorem skeleton_put (found : (Node.program p).inner? a = some c) (inner : c.kind.isLeaf = false)
    (same : c'.kind = c.kind) (alike : c'.skeleton = c.skeleton) :
    (p.put a c').skeleton = p.skeleton := by
  have updated := Node.skeleton_update found inner same alike
  rw [← program_put found same] at updated
  exact Node.program.inj updated

variable {e e' : Expression}

theorem skeleton_putExpression (found : p.expressionAt? a = some e) :
    (p.put a (.expression e')).skeleton = p.skeleton :=
  skeleton_put (Node.top?_eq_some.1 found) rfl rfl rfl

theorem program_putExpression (found : p.expressionAt? a = some e) :
    Node.program (p.put a (.expression e')) =
      (Node.program p).update a fun _ => .expression e' :=
  program_put (Node.top?_eq_some.1 found) rfl

theorem expressionAt?_put_self (found : p.expressionAt? a = some e) :
    (p.put a (.expression e')).expressionAt? a = some e' := by
  rw [expressionAt?, program_putExpression found]
  exact Node.top?_update_self found

theorem expressionAt?_put_of_ne {b : Address} (found : p.expressionAt? a = some e)
    (other : b ≠ a) : (p.put a (.expression e')).expressionAt? b = p.expressionAt? b := by
  rw [expressionAt?, program_putExpression found]
  exact Node.top?_update_of_ne found other

theorem expressionAt?_put_alike (found : (Node.program p).inner? a = some c)
    (inner : c.kind.isLeaf = false) (same : c'.kind = c.kind)
    (alike : ∀ rest, c'.top? rest = c.top? rest) (b : Address) :
    (p.put a c').expressionAt? b = p.expressionAt? b := by
  rw [expressionAt?, program_put found same]
  exact Node.top?_update_alike found inner same alike b

end Put

end Program

/-! ## Where names lead -/

theorem findNamed_eq_some {α : Type} {nameOf : α → Checked (Option String)} {name : String}
    {start index : Nat} {list : List α} {a : α}
    (run : findNamed nameOf name start list = .ok (some (index, a))) :
    ∃ i, index = start + i ∧ list[i]? = some a := by
  induction list generalizing start with
  | nil => cases run
  | cons _ _ ih =>
    rw [findNamed, bind_eq_ok] at run
    rcases run with ⟨text, _, run⟩
    split at run
    · cases run
      exact ⟨0, rfl, rfl⟩
    · rcases ih run with ⟨i, rfl, there⟩
      exact ⟨i + 1, by omega, there⟩

section Find

variable {n m c : Node} {s : Step} {trail : List Step} {t : TypeDefinition} {name : String}
  {path rest : List String} {found : Found}

theorem mem_parameter {i : Nat} {q : RuntimeParameter} (there : t.parameters[i]? = some q) :
    (⟨"runtime_parameter", i⟩, .parameter q) ∈ (Node.typeDefinition t).children := by
  simp [Node.children, mem_childrenIn_iff, there]

theorem mem_subtype {i : Nat} {inner : TypeDefinition} (there : t.subtypes[i]? = some inner) :
    (⟨"subtype", i⟩, .typeDefinition inner) ∈ (Node.typeDefinition t).children := by
  simp [Node.children, mem_childrenIn_iff, there]

theorem mem_record {b : Structure} (isRecord : t.body = .record b) :
    (⟨"structure", 0⟩, .structureBody b) ∈ (Node.typeDefinition t).children := by
  simp [Node.children, isRecord]

theorem mem_enumeration {e : Enumeration} (isEnumeration : t.body = .enumeration e) :
    (⟨"enumeration", 0⟩, .enumBody e) ∈ (Node.typeDefinition t).children := by
  simp [Node.children, isEnumeration]

/-- One step further along a trail, whose last step comes first. -/
theorem inner?_step (trail : List Step) (here : n.inner? trail.reverse = some m)
    (outer : m.kind ≠ .expression) (member : (s, c) ∈ m.children) :
    n.inner? (s :: trail).reverse = some c := by
  rw [reverse_cons, Node.inner?_append, here]
  simp [Node.inner?, outer, Node.child?_of_mem member]

theorem inner?_of_findParameter (here : n.inner? trail.reverse = some (.typeDefinition t))
    (run : findParameter trail t name = .ok (some found)) :
    n.inner? found.address = some found.object.node := by
  simp only [findParameter, bind_eq_ok, pure_eq_ok, map_eq_some_iff] at run
  rcases run with ⟨_, named, ⟨_, q⟩, rfl, rfl⟩
  rcases findNamed_eq_some named with ⟨i, rfl, there⟩
  rw [Nat.zero_add]
  exact inner?_step _ here (by simp [Node.kind]) (mem_parameter there)

theorem inner?_of_findMember (here : n.inner? trail.reverse = some (.typeDefinition t))
    (run : findMember trail t name rest = .ok (some found)) :
    n.inner? found.address = some found.object.node := by
  unfold findMember at run
  split at run
  · rename_i body isRecord
    rw [bind_eq_ok] at run
    rcases run with ⟨_ | ⟨index, f⟩, named, run⟩
    · cases run
    · rcases findNamed_eq_some named with ⟨i, rfl, there⟩
      simp only at run
      split at run
      · cases run
        rw [Nat.zero_add]
        have inBody := inner?_step _ here (by simp [Node.kind]) (mem_record isRecord)
        exact inner?_step _ inBody (by simp [Node.kind])
          (mem_childrenIn_iff.2 ⟨i, f, rfl, there, rfl⟩)
      · cases run
  · rename_i body isEnumeration
    split at run
    · cases run
    · rw [bind_eq_ok] at run
      rcases run with ⟨_ | ⟨index, v⟩, named, run⟩
      · cases run
      · rcases findNamed_eq_some named with ⟨i, rfl, there⟩
        cases run
        rw [Nat.zero_add]
        have inBody := inner?_step _ here (by simp [Node.kind]) (mem_enumeration isEnumeration)
        exact inner?_step _ inBody (by simp [Node.kind])
          (mem_childrenIn_iff.2 ⟨i, v, rfl, there, rfl⟩)
  · cases run

/-- What a path leads to in a type is a parameter of it, a member, or in a subtype. -/
theorem findInType_cons (run : findInType trail t (name :: rest) = .ok (some found)) :
    (rest = [] ∧ findParameter trail t name = .ok (some found)) ∨
      findMember trail t name rest = .ok (some found) ∨
      ∃ i inner, findNamed (fun t => nameText t.name) name 0 t.subtypes = .ok (some (i, inner)) ∧
        findInType (⟨"subtype", i⟩ :: trail) inner rest = .ok (some found) := by
  rw [findInType] at run
  split at run
  on_goal 2 => rw [pure_bind] at run
  on_goal 1 =>
    rename_i ends
    rw [bind_eq_ok] at run
    rcases run with ⟨_ | _, parameterRun, run⟩
    on_goal 2 =>
      cases run
      exact .inl ⟨isEmpty_iff.1 ends, parameterRun⟩
  -- whether parameters were looked at or not, members come next
  all_goals
    rw [bind_eq_ok] at run
    rcases run with ⟨_ | _, memberRun, run⟩
    · simp only [findInTypes, bind_eq_ok] at run
      rcases run with ⟨_ | ⟨i, inner⟩, named, run⟩
      · cases run
      · exact .inr (.inr ⟨i, inner, named, run⟩)
    · cases run
      exact .inr (.inl memberRun)

theorem inner?_of_findInType (here : n.inner? trail.reverse = some (.typeDefinition t))
    (run : findInType trail t path = .ok (some found)) :
    n.inner? found.address = some found.object.node := by
  induction path generalizing trail t with
  | nil =>
    rw [findInType] at run
    cases run
    exact here
  | cons name rest ih =>
    rcases findInType_cons run with ⟨_, parameter⟩ | member | ⟨_, _, named, below⟩
    · exact inner?_of_findParameter here parameter
    · exact inner?_of_findMember here member
    · rcases findNamed_eq_some named with ⟨i, rfl, there⟩
      rw [Nat.zero_add] at below
      exact ih (inner?_step _ here (by simp [Node.kind]) (mem_subtype there)) below

theorem findModule_eq_some {file : String} {start index : Nat} {modules : List Module}
    {m : Module} (run : Program.findModule file start modules = some (index, m)) :
    ∃ i, index = start + i ∧ modules[i]? = some m := by
  induction modules generalizing start with
  | nil => cases run
  | cons _ _ ih =>
    rw [Program.findModule] at run
    split at run
    · cases run
      exact ⟨0, rfl, rfl⟩
    · rcases ih run with ⟨i, rfl, there⟩
      exact ⟨i + 1, by omega, there⟩

theorem inner?_of_findPath {p : Program} (run : p.findPath path = .ok (some found)) :
    (Node.program p).inner? found.address = some found.object.node := by
  cases path with
  | nil =>
    rw [Program.findPath] at run
    split at run <;> cases run
  | cons file names =>
    rw [Program.findPath] at run
    split at run
    · cases run
    · rename_i index m inModules
      rcases findModule_eq_some inModules with ⟨i, rfl, there⟩
      rw [Nat.zero_add] at run
      have here : (Node.program p).inner? [⟨"module", i⟩] = some (.moduleFile m) :=
        inner?_step [] rfl (by simp [Node.kind]) (mem_childrenIn_iff.2 ⟨i, m, rfl, there, rfl⟩)
      cases names with
      | nil =>
        cases run
        exact here
      | cons =>
        simp only at run
        rw [findInTypes, bind_eq_ok] at run
        rcases run with ⟨_ | ⟨index, t⟩, named, run⟩
        · cases run
        · rcases findNamed_eq_some named with ⟨j, rfl, inTypes⟩
          rw [Nat.zero_add] at run
          exact inner?_of_findInType
            (inner?_step [⟨"module", i⟩] here (by simp [Node.kind])
              (by simp [Node.children, mem_childrenIn_iff, inTypes])) run

end Find

namespace Program

theorem inner?_of_find {p : Program} {name : CanonicalName} {found : Found}
    (run : p.find name = .ok found) :
    (Node.program p).inner? found.address = some found.object.node := by
  rw [find, bind_eq_ok] at run
  rcases run with ⟨_ | _, findRun, run⟩
  · exact (throw_ne_ok run).elim
  · cases run
    exact inner?_of_findPath findRun

end Program

/-! ## The expressions of an object -/

section Slots

open Node

theorem top?_child {n c : Node} {step : Step} {rest : Address} (member : (step, c) ∈ n.children)
    (outer : n.kind ≠ .expression) : n.top? (step :: rest) = c.top? rest := by
  rw [top?, inner?, if_neg outer, child?_of_mem member]
  rfl

theorem top?_slot {n : Node} {step : Step} {own : Option Expression} (outer : n.kind ≠ .expression)
    (slot : ∀ e, (step, .expression e) ∈ n.children ↔ own = some e) : n.top? [step] = own := by
  ext e
  rw [top?_eq_some, ← slot]
  constructor
  · intro found
    rcases inner?_cons_eq_some.1 found with ⟨_, _, isChild, same⟩
    cases same
    exact mem_children_of_child? isChild
  · intro member
    exact inner?_cons_eq_some.2 ⟨outer, _, child?_of_mem member, rfl⟩

variable (f : Field) (v : EnumValue) (t : TypeSpec) (p : Placement)

theorem top?_readTransform : (Node.field f).top? [⟨"read_transform", 0⟩] = f.readTransform :=
  top?_slot (by simp [kind]) (by simp [children, mem_childIn_iff, mem_childrenIn_iff])

theorem expressionAt?_read {p : Program} {a : Address} {e : Expression}
    (there : (Node.program p).inner? a = some (.field f)) (reads : f.readTransform = some e) :
    p.expressionAt? (a ++ [⟨"read_transform", 0⟩]) = some e := by
  have inField : (Node.field f).inner? [⟨"read_transform", 0⟩] = some (.expression e) :=
    Node.top?_eq_some.1 ((top?_readTransform f).trans reads)
  refine Node.top?_eq_some.2 ?_
  rw [Node.inner?_append, there, Option.bind_some, inField]

theorem top?_existenceCondition :
    (Node.field f).top? [⟨"existence_condition", 0⟩] = f.existenceCondition :=
  top?_slot (by simp [kind]) (by simp [children, mem_childIn_iff, mem_childrenIn_iff])

theorem top?_value : (Node.enumValue v).top? [⟨"value", 0⟩] = v.value :=
  top?_slot (by simp [kind]) (by simp [children, mem_childIn_iff, mem_childrenIn_iff])

theorem top?_sizeInBits : (Node.type t).top? [⟨"size_in_bits", 0⟩] = t.sizeInBits :=
  top?_slot (by simp [kind]) (by cases t <;> simp [children, mem_childIn_iff, TypeSpec.sizeInBits])

theorem top?_length : (Node.placement p).top? [⟨"size", 0⟩] = p.size :=
  top?_slot (by simp [kind]) (by simp [children, mem_childIn_iff])

variable {f t p} {rest : Address}

theorem top?_fieldType (isType : f.type = some t) :
    (Node.field f).top? (⟨"type", 0⟩ :: rest) = (Node.type t).top? rest :=
  top?_child (by simp [children, mem_childIn_iff, isType]) (by simp [kind])

theorem top?_placement (isPlaced : f.placement = some p) :
    (Node.field f).top? (⟨"location", 0⟩ :: rest) = (Node.placement p).top? rest :=
  top?_child (by simp [children, mem_childIn_iff, isPlaced]) (by simp [kind])

theorem top?_parameterType {q : RuntimeParameter} (isType : q.physicalType = some t) :
    (Node.parameter q).top? (⟨"physical_type_alias", 0⟩ :: rest) = (Node.type t).top? rest :=
  top?_child (by simp [children, mem_childIn_iff, isType]) (by simp [kind])

end Slots

theorem expressionAt?_append {p : Program} {name : CanonicalName} {found : Found}
    (run : p.find name = .ok found) (rest : Address) :
    p.expressionAt? (found.address ++ rest) = found.object.node.top? rest := by
  rw [Program.expressionAt?, Node.top?, Node.inner?_append, Program.inner?_of_find run]
  rfl

end BinaryLayout.IR
