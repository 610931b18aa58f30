import Mathlib.Algebra.GroupWithZero.Nat
import Mathlib.Data.Set.Subsingleton
import BinaryLayout.Proofs.Dependency.Graph

/-!
# The cycles of a graph

What can be reached is found by following each edge at most once, so the number of edges bounds
the steps.  Nodes that can be reached from themselves are then grouped with those that lead back.

Main statement: the groups are exactly the strongly connected components that have more than one
node or a node with an edge to itself.
-/

namespace BinaryLayout.Dependency.Graph

open List Relation

variable {g : Graph} {n m x : NodeName} {nodes work rest : List NodeName}
  {seen : Std.HashSet NodeName}

/-- One node has an edge to another. -/
def Leads (g : Graph) (n m : NodeName) : Prop :=
  m ∈ g.next n

/-- The keys of the table are the nodes, each listed once, and every edge leads to a node. -/
structure WellFormed (g : Graph) : Prop where
  once : g.nodes.Nodup
  listed : ∀ n, g.contains n = true ↔ n ∈ g.nodes
  closed : ∀ n m, n ∈ g.nodes → g.Leads n m → m ∈ g.nodes

/-- A graph that was built is well formed once its edges lead to nodes. -/
theorem Shows.wellFormed {isNode : NodeName → Prop} {leads : NodeName → NodeName → Prop}
    (shows : Shows g isNode leads) (closed : ∀ n m, isNode n → leads n m → isNode m) :
    g.WellFormed := by
  refine ⟨shows.once, fun n => (shows.contained n).trans (shows.listed n).symm, ?_⟩
  intro n m listed step
  rw [shows.listed] at listed ⊢
  exact closed n m listed ((shows.next n m).1 step)

theorem WellFormed.mem_of_reached (wellFormed : g.WellFormed) (listed : n ∈ g.nodes)
    (reached : ReflTransGen g.Leads n m) : m ∈ g.nodes := by
  induction reached with
  | refl => exact listed
  | tail _ step ih => exact wellFormed.closed _ _ ih step

/-! ## What can be reached -/

/-- How many edges begin at nodes that have not been seen. -/
def edgesLeft (g : Graph) (seen : Std.HashSet NodeName) (nodes : List NodeName) : Nat :=
  (nodes.map fun n => if seen.contains n then 0 else (g.next n).length).sum

theorem edgesLeft_insert (once : nodes.Nodup) (listed : n ∈ nodes) (unseen : n ∉ seen) :
    g.edgesLeft (seen.insert n) nodes + (g.next n).length = g.edgesLeft seen nodes := by
  have apart : seen.contains n = false := by simpa using unseen
  have others : ((nodes.erase n).map fun m =>
        if (seen.insert n).contains m then 0 else (g.next m).length) =
      (nodes.erase n).map fun m => if seen.contains m then 0 else (g.next m).length := by
    refine map_congr_left fun m inOthers => ?_
    have differs : (n == m) = false := by
      simpa using fun same => (once.mem_erase_iff.1 inOthers).1 same.symm
    rw [Std.HashSet.contains_insert, differs, Bool.false_or]
  have split := perm_cons_erase listed
  rw [edgesLeft, edgesLeft, (split.map _).sum_nat, (split.map _).sum_nat, map_cons, map_cons,
    others, Std.HashSet.contains_insert, beq_self_eq_true, apart]
  simp [Nat.add_comm]

theorem mem_or_reached (kept : ∀ a ∈ seen, ∀ b, g.Leads a b → b ∈ seen ∨ b ∈ rest)
    (known : n ∈ seen) (reached : ReflTransGen g.Leads n x) :
    x ∈ seen ∨ ∃ w ∈ rest, ReflTransGen g.Leads w x := by
  induction reached using ReflTransGen.head_induction_on with
  | refl => exact .inl known
  | head step onward ih =>
    rcases kept _ known _ step with again | toVisit
    · exact ih again
    · exact .inr ⟨_, toVisit, onward⟩

/-- With steps enough, everything that can be reached is found. -/
theorem mem_explore (wellFormed : g.WellFormed) {fuel : Nat}
    (enough : work.length + g.edgesLeft seen g.nodes ≤ fuel) (listed : ∀ w ∈ work, w ∈ g.nodes)
    (kept : ∀ a ∈ seen, ∀ b, g.Leads a b → b ∈ seen ∨ b ∈ work) :
    x ∈ g.explore fuel work seen ↔ x ∈ seen ∨ ∃ w ∈ work, ReflTransGen g.Leads w x := by
  fun_induction explore g fuel work seen with
  | case1 work seen =>
    have nothing : work = [] := length_eq_zero_iff.1 (by omega)
    simp [nothing]
  | case2 => simp
  | case3 fuel n rest seen known ih =>
    have isSeen : n ∈ seen := known
    have keptOn (a : NodeName) (inSeen : a ∈ seen) (b : NodeName) (step : g.Leads a b) :
        b ∈ seen ∨ b ∈ rest := by
      rcases kept a inSeen b step with again | toVisit
      · exact .inl again
      · exact (mem_cons.1 toVisit).imp_left fun (same : b = n) => same ▸ isSeen
    rw [length_cons] at enough
    rw [ih (by omega) (fun w inRest => listed w (mem_cons_of_mem _ inRest)) keptOn,
      exists_mem_cons_iff]
    refine ⟨fun found => found.imp_right .inr, ?_⟩
    rintro (inSeen | reached | fromRest)
    · exact .inl inSeen
    · exact mem_or_reached keptOn isSeen reached
    · exact .inr fromRest
  | case4 fuel n rest seen unknown ih =>
    have isListed := listed n mem_cons_self
    have fewer := @edgesLeft_insert g n g.nodes seen wellFormed.once isListed unknown
    have keptOn (a : NodeName) (inSeen : a ∈ seen.insert n) (b : NodeName) (step : g.Leads a b) :
        b ∈ seen.insert n ∨ b ∈ g.next n ++ rest := by
      rw [mem_append]
      rcases Std.HashSet.mem_insert.1 inSeen with same | before
      · exact .inr (.inl (beq_iff_eq.1 same ▸ step))
      · rcases kept a before b step with again | toVisit
        · exact .inl (Std.HashSet.mem_insert.2 (.inr again))
        · rcases mem_cons.1 toVisit with rfl | inRest
          · exact .inl Std.HashSet.mem_insert_self
          · exact .inr (.inr inRest)
    rw [length_cons] at enough
    have listedOn : ∀ w ∈ g.next n ++ rest, w ∈ g.nodes :=
      forall_mem_append.2 ⟨fun m => wellFormed.closed n m isListed,
        fun w inRest => listed w (mem_cons_of_mem _ inRest)⟩
    rw [ih (by rw [length_append]; omega) listedOn keptOn, exists_mem_cons_iff,
      ReflTransGen.cases_head_iff, Std.HashSet.mem_insert, beq_iff_eq]
    simp only [mem_append, or_and_right, exists_or, Leads]
    rw [@or_comm (n = x), or_assoc, or_assoc]

theorem mem_reachable (wellFormed : g.WellFormed) (listed : n ∈ g.nodes) :
    m ∈ g.reachable n ↔ TransGen g.Leads n m := by
  have all : g.edgesLeft ∅ g.nodes = g.edgeCount := by
    simp [edgesLeft, edgeCount, sum_eq_foldr]
  have own := @edgesLeft_insert g n g.nodes ∅ wellFormed.once listed (by simp)
  rw [reachable, mem_explore wellFormed (by omega) (fun w => wellFormed.closed n w listed)
    (by simp), TransGen.head'_iff]
  simp [Leads]

/-! ## Components -/

/-- A strongly connected component: a node and all that can be reached from it and lead back. -/
def IsComponent (g : Graph) (s : Set NodeName) : Prop :=
  ∃ n ∈ g.nodes, s = {m | ReflTransGen g.Leads n m ∧ ReflTransGen g.Leads m n}

/-- Two nodes lie on a cycle together. -/
def Together (g : Graph) (n m : NodeName) : Prop :=
  TransGen g.Leads n m ∧ TransGen g.Leads m n

theorem Together.symm (together : g.Together n m) : g.Together m n :=
  ⟨together.2, together.1⟩

theorem Together.trans (first : g.Together n m) (second : g.Together m x) : g.Together n x :=
  ⟨first.1.trans second.1, second.2.trans first.2⟩

/-- With a node on a cycle are all the nodes of its component. -/
theorem together_iff (onCycle : TransGen g.Leads n n) :
    g.Together n m ↔ ReflTransGen g.Leads n m ∧ ReflTransGen g.Leads m n :=
  ⟨fun together => ⟨together.1.to_reflTransGen, together.2.to_reflTransGen⟩,
    fun mutual_ => ⟨onCycle.trans_left mutual_.1, onCycle.trans_right mutual_.2⟩⟩

/-- The components with a cycle are the classes of nodes on cycles. -/
theorem isComponent_and_cyclic_iff {s : Set NodeName} :
    g.IsComponent s ∧ (s.Nontrivial ∨ ∃ n, s = {n} ∧ g.Leads n n) ↔
      ∃ n ∈ g.nodes, TransGen g.Leads n n ∧ {m | g.Together n m} = s := by
  constructor
  · rintro ⟨⟨n, listed, rfl⟩, several⟩
    have onCycle : TransGen g.Leads n n := by
      rcases several with several | ⟨m, single, self⟩
      · rcases several.exists_ne n with ⟨m, ⟨there, back⟩, other⟩
        rcases reflTransGen_iff_eq_or_transGen.1 there with same | there
        · exact (other same).elim
        · exact there.trans_left back
      · have same : n ∈ ({m} : Set NodeName) := single ▸ ⟨.refl, .refl⟩
        cases same
        exact .single self
    exact ⟨n, listed, onCycle, Set.ext fun m => together_iff onCycle⟩
  · rintro ⟨n, listed, onCycle, rfl⟩
    refine ⟨⟨n, listed, Set.ext fun m => together_iff onCycle⟩, ?_⟩
    by_cases several : {m | g.Together n m}.Nontrivial
    · exact .inl several
    · have single : {m | g.Together n m} = {n} :=
        (Set.not_nontrivial_iff.1 several).eq_singleton_of_mem ⟨onCycle, onCycle⟩
      rcases TransGen.head'_iff.1 onCycle with ⟨m, step, back⟩
      have same : m ∈ {m | g.Together n m} := (together_iff onCycle).2 ⟨.single step, back⟩
      rw [single] at same
      cases same
      exact .inr ⟨_, single, step⟩

/-! ## Groups -/

section Groups

variable {reach : Std.HashMap NodeName (Std.HashSet NodeName)}

/-- A table gives with each node of a list those that lie on a cycle with it. -/
def Groups (g : Graph) (reach : Std.HashMap NodeName (Std.HashSet NodeName))
    (nodes : List NodeName) : Prop :=
  ∀ n ∈ nodes, ∀ m, m ∈ component reach n nodes ↔ g.Together n m

theorem component_congr (groups : g.Groups reach nodes) (first : n ∈ nodes) (second : m ∈ nodes)
    (together : g.Together n m) : component reach n nodes = component reach m nodes := by
  refine filter_congr fun x listed => ?_
  have fromFirst := groups n first x
  have fromSecond := groups m second x
  simp only [component, mem_filter, listed, true_and] at fromFirst fromSecond
  rw [Bool.eq_iff_iff, fromFirst, fromSecond]
  exact ⟨together.symm.trans, together.trans⟩

theorem mem_components (groups : g.Groups reach nodes) (once : nodes.Nodup) {fuel : Nat}
    (enough : rest.length ≤ fuel) (listed : ∀ n ∈ rest, n ∈ nodes) :
    (∀ group, group ∈ components reach nodes fuel rest ↔
        ∃ n ∈ rest, component reach n nodes = group) ∧
      (components reach nodes fuel rest).flatten.Nodup := by
  fun_induction components reach nodes fuel rest with
  | case1 rest =>
    have nothing : rest = [] := length_eq_zero_iff.1 (by omega)
    simp [nothing]
  | case2 => simp
  | case3 fuel n rest group ih =>
    have isListed := listed n mem_cons_self
    have inNodes (m : NodeName) (inRest : m ∈ rest) := listed m (mem_cons_of_mem _ inRest)
    have fewer := length_filter_le (fun m => !group.contains m) rest
    rw [length_cons] at enough
    rcases ih (by omega) fun m inOthers => inNodes m (mem_filter.1 inOthers).1 with ⟨members, apart⟩
    refine ⟨fun other => ?_, ?_⟩
    · rw [mem_cons, members, exists_mem_cons_iff, @eq_comm _ other]
      refine or_congr_right' fun isOther => exists_congr fun m => ?_
      rw [mem_filter, and_assoc]
      refine and_congr_right fun inRest => and_iff_right_of_imp fun isGroup => ?_
      rw [Bool.not_eq_true', contains_eq_mem, decide_eq_false_iff_not]
      intro inGroup
      have together := (groups n isListed m).1 inGroup
      exact isOther ((component_congr groups isListed (inNodes m inRest) together).trans isGroup)
    · rw [flatten_cons, nodup_append]
      refine ⟨once.filter _, apart, ?_⟩
      rintro x inGroup _ inOthers rfl
      rcases mem_flatten.1 inOthers with ⟨_, isGroup, inOther⟩
      rcases (members _).1 isGroup with ⟨m, inRest, rfl⟩
      rcases mem_filter.1 inRest with ⟨inRest, notInGroup⟩
      have fromFirst := (groups n isListed x).1 inGroup
      have fromSecond := (groups m (inNodes m inRest) x).1 inOther
      have inGroup := (groups n isListed m).2 (fromFirst.trans fromSecond.symm)
      simp [group, inGroup] at notInGroup

theorem groups_of_reachable (wellFormed : g.WellFormed)
    (reaches : ∀ n ∈ g.nodes, reach.getD n ∅ = g.reachable n)
    (onCycle : ∀ n, n ∈ nodes ↔ n ∈ g.nodes ∧ TransGen g.Leads n n) : g.Groups reach nodes := by
  intro n isListed m
  have first := ((onCycle n).1 isListed).1
  rw [component, mem_filter, onCycle, Bool.and_eq_true, reaches n first]
  constructor
  · rintro ⟨⟨second, _⟩, there, back⟩
    rw [reaches m second] at back
    exact ⟨(mem_reachable wellFormed first).1 there, (mem_reachable wellFormed second).1 back⟩
  · intro together
    have second := wellFormed.mem_of_reached first together.1.to_reflTransGen
    rw [reaches m second]
    exact ⟨⟨second, together.2.trans together.1⟩, (mem_reachable wellFormed first).2 together.1,
      (mem_reachable wellFormed second).2 together.2⟩

end Groups

end BinaryLayout.Dependency.Graph
