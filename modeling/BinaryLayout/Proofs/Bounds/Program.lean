import Mathlib
import BinaryLayout.Proofs.Bounds.Underway
import BinaryLayout.Proofs.IR.Shape

/-!
# Programs with bounds

Computing the bounds of a program goes over all of its expressions and then over all parameters.

Main statements: nothing but the types of expressions and of parameters changes, and computing the
bounds once more changes nothing at all.  If the program was well-typed, every expression is
complete.
-/

namespace BinaryLayout.Bounds

open IR Typing Checked List

variable {p s s' : Program} {u : PUnit} {a : Address} {q : RuntimeParameter} {depth : Nat}
  {t : Option ExpressionType} {part : Visit × RuntimeParameter}

/-- Every expression of a program is well-typed and has its bounds. -/
structure Computed (p : Program) : Prop where
  wellTyped : AllTyped p
  complete : ∀ a e, p.expressionAt? a = some e → Complete p e

/-! ## Expressions -/

theorem expressionAt?_of_visit {v : Visit} (visited : v ∈ p.visits [.expression] [.expression]) :
    ∃ e, p.expressionAt? v.address = some e := by
  have isExpression : ∃ e, v.node = .expression e := by
    have targets : v.node.kind = .expression := Program.kind_of_visit visited
    cases isNode : v.node with
    | expression e => exact ⟨e, rfl⟩
    | _ =>
      rw [isNode] at targets
      cases targets
  rcases isExpression with ⟨e, isNode⟩
  refine ⟨e, Node.top?_eq_some.2 ?_⟩
  rw [Node.inner?_address visited (.inl (by simp)), isNode]

theorem exists_visit {e : Expression} (there : p.expressionAt? a = some e) :
    ∃ v ∈ p.visits [.expression] [.expression], v.address = a := by
  have inProgram := Node.top?_eq_some.1 there
  rcases Node.exists_visitAt (Node.at?_of_inner? inProgram) [] [] with ⟨v, visited, isNode⟩
  have outside := (Node.avoids_iff visited (forall_mem_nil _)).1 (Node.avoids_expression inProgram)
  have isVisit : v ∈ p.visits [v.node.kind] [.expression] :=
    Program.mem_visits_of_visitAt visited fun m above skipped =>
      outside m above (mem_singleton.1 skipped)
  rw [isNode] at isVisit
  exact ⟨v, isVisit, Program.address_of_visitAt visited⟩

/-- The bounds of the expressions at the addresses of some visits. -/
abbrev computeExpressions (depth : Nat) (visits : List Visit) : BoundsM PUnit :=
  forIn visits PUnit.unit fun v _ => do
    let _ ← computeAt depth v.address
    pure (.yield PUnit.unit)

theorem computeExpressions_rests {visits : List Visit}
    (all : ∀ v ∈ visits, ∃ e, p.expressionAt? v.address = some e)
    (run : (computeExpressions depth visits).run p = .ok (u, s)) :
    Refines p s ∧ ∀ v ∈ visits, ∃ c, RestsAt p depth s v.address c := by
  refine run_loop_induction
    (fun done s => Refines p s ∧ ∀ v ∈ done, ∃ c, RestsAt p depth s v.address c)
    ⟨.refl p, forall_mem_nil _⟩ ?_ run
  rintro done v s next s' member ⟨refines, isDone⟩ step
  obtain ⟨c', _, step, ends⟩ := run_bind_eq_ok.1 step
  cases run_pure_eq_ok.1 ends
  rcases all v member with ⟨_, begins⟩
  rcases exists_of_rel (refines.evolves.expressions _) begins with ⟨c, there, _⟩
  rcases atDepth p depth s _ _ c c' refines there step with ⟨refines', keeps, restsAt⟩
  refine ⟨rfl, refines', forall_mem_append.2
    ⟨fun w earlier => ?_, forall_mem_singleton.2 ⟨c', restsAt⟩⟩⟩
  rcases isDone w earlier with ⟨c, rests⟩
  exact ⟨c, rests.later keeps⟩

/-! ## Parameters -/

/-- The parameter that an address leads to. -/
def parameterAt? (p : Program) (a : Address) : Option RuntimeParameter :=
  ((Node.program p).inner? a).bind Node.parameter?

theorem parameterAt?_eq_some :
    parameterAt? p a = some q ↔ (Node.program p).inner? a = some (.parameter q) := by
  rw [parameterAt?, Option.bind_eq_some_iff]
  constructor
  · rintro ⟨n, found, isParameter⟩
    cases n <;> cases isParameter
    exact found
  · intro found
    exact ⟨_, found, rfl⟩

theorem parameterAt?_of_partsOf (member : part ∈ p.partsOf Node.parameter? [.runtimeParameter]) :
    parameterAt? p part.1.address = some part.2 := by
  rcases mem_filterMap.1 member with ⟨v, visited, isPart⟩
  rcases Option.map_eq_some_iff.1 isPart with ⟨q, isParameter, rfl⟩
  rw [parameterAt?, Node.inner?_address visited (.inr (by decide +kernel))]
  exact isParameter

theorem exists_partsOf (there : parameterAt? p a = some q) :
    ∃ v, (v, q) ∈ p.partsOf Node.parameter? [.runtimeParameter] ∧ v.address = a := by
  rcases Node.exists_visitAt (Node.at?_of_inner? (parameterAt?_eq_some.1 there)) [] [] with
    ⟨v, visited, isNode⟩
  have isVisit : v ∈ p.visits [v.node.kind] [] :=
    Program.mem_visits_of_visitAt visited fun m above => not_mem_nil
  rw [isNode] at isVisit
  exact ⟨v, mem_filterMap.2 ⟨v, isVisit, by rw [isNode]; rfl⟩, Program.address_of_visitAt visited⟩

theorem parameter_apart {n : Node} {b : Address} {r : RuntimeParameter}
    (there : n.inner? a = some (.parameter q)) (there' : n.inner? b = some (.parameter r))
    (other : b ≠ a) : ¬ a <+: b :=
  Node.not_prefix_of_below there there' other (by simp only [Node.kind]; decide +kernel)

/-- A parameter that is put in the place of another leaves those at other addresses alone. -/
theorem parameterAt?_put (there : parameterAt? p a = some q) (r : RuntimeParameter) (b : Address) :
    parameterAt? (p.put a (.parameter r)) b = if b = a then some r else parameterAt? p b := by
  rw [parameterAt?_eq_some] at there
  have same : (Node.parameter r).kind = (Node.parameter q).kind := rfl
  have here := Node.inner?_update_append there rfl same []
  rw [append_nil, ← Program.program_put there same] at here
  have apart (notAbove : ¬ a <+: b) (notBelow : ¬ b <+: a) :=
    Node.inner?_update_of_apart there rfl same notAbove notBelow
  rw [← Program.program_put there same] at apart
  split
  · subst b
    exact parameterAt?_eq_some.2 here
  · rename_i other
    ext r'
    rw [parameterAt?_eq_some, parameterAt?_eq_some]
    constructor
    · intro found
      rwa [← apart (parameter_apart here found other) (parameter_apart found here (Ne.symm other))]
    · intro found
      rwa [apart (parameter_apart there found other) (parameter_apart found there (Ne.symm other))]

/-- What is known of a parameter is no part of any expression. -/
theorem Refines.putParameter (refines : Refines p s) (there : parameterAt? s a = some q) :
    Refines p (s.put a (.parameter { q with type := t })) ∧
      Keeps p s (s.put a (.parameter { q with type := t })) := by
  rw [parameterAt?_eq_some] at there
  have children (step : Step) (c : Node) (holds : c.kind.canHold .expression = true) :
      (step, c) ∈ (Node.parameter { q with type := t }).children ↔
        (step, c) ∈ (Node.parameter q).children := by
    have other (known : Option ExpressionType) :
        (step, c) ∉ childIn "type" Node.expressionType known := by
      intro member
      rcases mem_childIn_iff.1 member with ⟨_, _, _, rfl⟩
      exact absurd holds (by simp only [Node.kind]; decide +kernel)
    simp only [Node.children, mem_append, other, or_false]
  have outer : (Node.parameter q).kind ≠ .expression := by simp [Node.kind]
  have same (b : Address) : (s.put a (.parameter { q with type := t })).expressionAt? b =
      s.expressionAt? b :=
    Program.expressionAt?_put_alike there rfl (by rfl) (Node.top?_congr outer (by rfl) children) b
  have skeleton : (s.put a (.parameter { q with type := t })).skeleton = s.skeleton :=
    Program.skeleton_put there rfl rfl rfl
  have keeps : Keeps p s (s.put a (.parameter { q with type := t })) :=
    ⟨⟨skeleton, fun b => (same b).symm ▸ (Keeps.refl p s).expressions b⟩,
      fun b c found _ => (same b).trans found⟩
  refine ⟨⟨⟨skeleton.trans refines.evolves.skeleton, fun b => ?_⟩,
    refines.retypes.tail (.parameter (Node.at?_of_inner? there))⟩, keeps⟩
  rw [same b]
  exact (refines.evolves.mono fun _ _ => Or.imp_right keeps.settles).expressions b

theorem computeParameter_eq_ok {q' : RuntimeParameter} (run : computeParameter q = .ok q') :
    (∃ t, q' = { q with type := t }) ∧ computeParameter q' = .ok q' := by
  have again := run
  simp only [computeParameter, bind_eq_ok, Failure.require_eq_ok] at run
  rcases run with ⟨t, hasType, run⟩
  cases t with
  | integer =>
    simp only [bind_eq_ok, Failure.require_eq_ok, pure_eq_ok] at run
    rcases run with ⟨physical, isPhysical, size, isSize, range, isRange, rfl⟩
    exact ⟨⟨_, rfl⟩, bind_eq_ok.2 ⟨_, rfl, bind_eq_ok.2 ⟨physical,
      Failure.require_eq_ok.2 isPhysical, bind_eq_ok.2 ⟨size, isSize, bind_eq_ok.2
        ⟨range, isRange, rfl⟩⟩⟩⟩⟩
  | _ =>
    cases run
    exact ⟨⟨q.type, rfl⟩, again⟩

abbrev computeParameters (parts : List (Visit × RuntimeParameter)) : BoundsM PUnit :=
  forIn parts PUnit.unit fun part _ => do
    let computed ← computeParameter part.2
    modify fun p => p.put part.1.address (.parameter computed)
    pure (.yield PUnit.unit)

theorem computeParameters_rests {parts : List (Visit × RuntimeParameter)} (refines : Refines p s)
    (all : ∀ part ∈ parts, parameterAt? s part.1.address = some part.2)
    (run : (computeParameters parts).run s = .ok (u, s')) :
    (Refines p s' ∧ Keeps p s s' ∧ ∀ b, Option.Rel (fun q r => ∃ t, r = { q with type := t })
      (parameterAt? s b) (parameterAt? s' b)) ∧ ∀ part ∈ parts, ∀ r,
      parameterAt? s' part.1.address = some r → computeParameter r = .ok r := by
  refine run_loop_induction (fun done s' => (Refines p s' ∧ Keeps p s s' ∧
      ∀ b, Option.Rel (fun q r => ∃ t, r = { q with type := t }) (parameterAt? s b)
        (parameterAt? s' b)) ∧
      ∀ part ∈ done, ∀ r, parameterAt? s' part.1.address = some r → computeParameter r = .ok r)
    ⟨⟨refines, .refl p s, fun b => ?_⟩, forall_mem_nil _⟩ ?_ run
  · cases parameterAt? s b with
    | none => exact .none
    | some q => exact .some ⟨q.type, rfl⟩
  rintro done part s' next s'' member ⟨⟨refines', keeps, alike⟩, isDone⟩ step
  rcases run_lift_bind_eq_ok.1 step with ⟨computed, isComputed, step⟩
  obtain ⟨_, _, changed, ends⟩ := run_bind_eq_ok.1 step
  cases run_modify_eq_ok.1 changed
  cases run_pure_eq_ok.1 ends
  rcases computeParameter_eq_ok isComputed with ⟨⟨t, rfl⟩, again⟩
  rcases exists_of_rel (alike part.1.address) (all part member) with ⟨_, there, _, rfl⟩
  rcases @Refines.putParameter _ _ _ _ t refines' there with ⟨refines'', further⟩
  have after := parameterAt?_put there { part.2 with type := t }
  refine ⟨rfl, ⟨refines'', keeps.trans further, fun b => ?_⟩, fun other isOther r there' => ?_⟩
  · rw [after]
    split
    · subst b
      rw [all part member]
      exact .some ⟨t, rfl⟩
    · exact alike b
  · rw [after] at there'
    split at there'
    · cases there'
      exact again
    · rename_i elsewhere
      rcases mem_append.1 isOther with earlier | isThis
      · exact isDone other earlier r there'
      · cases mem_singleton.1 isThis
        exact (elsewhere rfl).elim

/-! ## The whole program -/

theorem computeConstants_eq_ok {q : Program} {groups : List MessageGroup} :
    computeConstants p = .ok (q, groups) ↔ groups = [] ∧ ∃ middle,
      (computeExpressions (chainDepth p) (p.visits [.expression] [.expression])).run p =
        .ok (⟨⟩, middle) ∧
      (computeParameters (middle.partsOf Node.parameter? [.runtimeParameter])).run middle =
        .ok (⟨⟩, q) := by
  simp only [computeConstants, bind_eq_ok, computeProgram]
  constructor
  · rintro ⟨⟨⟨⟩, _⟩, run, same⟩
    cases pure_eq_ok.1 same
    obtain ⟨_, _, started, run⟩ := run_bind_eq_ok.1 run
    cases run_get_eq_ok.1 started
    obtain ⟨_, middle, expressions, run⟩ := run_bind_eq_ok.1 run
    obtain ⟨_, _, started, run⟩ := run_bind_eq_ok.1 run
    cases run_get_eq_ok.1 started
    obtain ⟨_, _, parameters, run⟩ := run_bind_eq_ok.1 run
    cases run_pure_eq_ok.1 run
    exact ⟨rfl, middle, expressions, parameters⟩
  · rintro ⟨rfl, middle, expressions, parameters⟩
    refine ⟨(⟨⟩, q), ?_, rfl⟩
    exact run_bind_eq_ok.2 ⟨p, p, rfl, run_bind_eq_ok.2 ⟨_, middle, expressions,
      run_bind_eq_ok.2 ⟨middle, middle, rfl, run_bind_eq_ok.2 ⟨_, q, parameters, rfl⟩⟩⟩⟩

/-- After the bounds of a program have been computed, there is nothing left to compute. -/
theorem computeConstants_rests {q : Program} {groups : List MessageGroup}
    (run : computeConstants p = .ok (q, groups)) :
    Refines p q ∧ (∀ a e, q.expressionAt? a = some e → RestsAt p (chainDepth p) q a e) ∧
      ∀ a r, parameterAt? q a = some r → computeParameter r = .ok r := by
  rcases computeConstants_eq_ok.1 run with ⟨rfl, middle, expressions, parameters⟩
  rcases computeExpressions_rests (fun _ => expressionAt?_of_visit) expressions with
    ⟨refines, areDone⟩
  rcases computeParameters_rests refines (fun _ => parameterAt?_of_partsOf) parameters with
    ⟨⟨refines', keeps, alike⟩, areKnown⟩
  refine ⟨refines', fun a e there => ?_, fun a r there => ?_⟩
  · rcases exists_before_of_rel (refines'.evolves.expressions a) there with ⟨_, begins, _⟩
    rcases exists_visit begins with ⟨v, visited, rfl⟩
    rcases areDone v visited with ⟨c, restsAt⟩
    have later := restsAt.later keeps
    cases there.symm.trans later.there
    exact later
  · rcases exists_before_of_rel (alike a) there with ⟨_, before, _⟩
    rcases exists_partsOf before with ⟨v, isPart, rfl⟩
    exact areKnown _ isPart r there

/-- Computing the bounds of a well-typed program completes all of its expressions. -/
theorem computeConstants_computed {q : Program} {groups : List MessageGroup} (prepared : Prepared p)
    (run : computeConstants p = .ok (q, groups)) : Computed q := by
  rcases computeConstants_rests run with ⟨refines, rests, _⟩
  refine ⟨refines.allTyped prepared, fun a e there => ?_⟩
  rcases (rests a e there).settled with ⟨before, begins, settles⟩
  exact ⟨before, (prepared.finishes refines.evolves begins settles).completes⟩

theorem chainDepth_put {c c' : Node} (found : p.at? a = some c) (inner : c.kind.isLeaf = false)
    (same : c'.kind = c.kind)
    (nothing : ∀ k ∈ [Kind.field, .enumValue], ∀ below ∈ c.kind.below, below.canHold k = false) :
    chainDepth (p.put a c') = chainDepth p := by
  have own : Node.IsOwn (fun _ => .compoundType) c.kind := fun _ _ _ _ => rfl
  have visits (k : Kind) (member : k ∈ [Kind.field, .enumValue]) :
      ((p.put a c').visits [k]).length = (p.visits [k]).length := by
    have none := nothing k member
    have shape : (Node.program (p.put a c')).shape (fun _ => .compoundType) k =
        (Node.program p).shape (fun _ => .compoundType) k :=
      Program.shape_put own found inner (Kind.canHold_self _)
        (by rw [Node.shape_of_below none, Node.shape_of_below (same ▸ none), same])
    have views := congrArg length (@Node.view_walk _ _ _ _ [] [] [] shape rfl)
    rwa [length_map, length_map] at views
  rw [chainDepth, chainDepth, visits .field (by simp), visits .enumValue (by simp)]

theorem chainDepth_of_retypes {q : Program} (retypes : Relation.ReflTransGen Retypes p q) :
    chainDepth q = chainDepth p := by
  induction retypes with
  | refl => rfl
  | tail _ step ih =>
    -- neither an expression nor a parameter holds a field or a value of an enumeration
    rw [← ih]
    cases step with
    | expression there | parameter there =>
      exact chainDepth_put there rfl rfl (by simp only [Node.kind]; decide +kernel)

/-- Computing the bounds of a program changes nothing but the types of expressions and parameters,
and computing them once more changes nothing. -/
theorem computeConstants_once {q : Program} {groups : List MessageGroup}
    (run : computeConstants p = .ok (q, groups)) :
    Relation.ReflTransGen Retypes p q ∧ computeConstants q = .ok (q, []) := by
  rcases computeConstants_rests run with ⟨refines, rests, known⟩
  refine ⟨refines.retypes, computeConstants_eq_ok.2 ⟨rfl, q, run_loop_rests fun v visited => ?_,
    run_loop_rests fun part member => ?_⟩⟩
  · rcases expressionAt?_of_visit visited with ⟨e, there⟩
    rw [chainDepth_of_retypes refines.retypes]
    exact run_bind_eq_ok.2 ⟨e, q, (rests v.address e there).rests q (.refl p q), rfl⟩
  · have there := parameterAt?_of_partsOf member
    refine run_lift_bind_eq_ok.2 ⟨part.2, known _ _ there, run_bind_eq_ok.2 ⟨⟨⟩, q, ?_, rfl⟩⟩
    rw [run_modify_eq_ok, Program.put_self (Node.at?_of_inner? (parameterAt?_eq_some.1 there))]

namespace Sample

/-- A structure with a parameter of eight bits. -/
def parameterized (ofSize own : ExpressionType) : Program where
  modules := [{ types := [{ parameters := [{
    type := some own
    physicalType := some (.atomic { reference := some { canonicalName := some ⟨"", ["UInt"]⟩ } }
      (some (.constant { value := some (.int 8) } { type := some ofSize })) none) }] }] }]

end Sample

/-- The type of the size comes first, and that of the parameter is taken from it. -/
theorem computeConstants_once_parameterized :
    let known := Sample.parameterized (.integer (singleton (some (.int 8))))
      (.integer ⟨none, none, some (.int 0), some (.int 255)⟩)
    computeConstants (Sample.parameterized (.integer {}) (.integer {})) = .ok (known, []) ∧
      computeConstants known = .ok (known, []) := by
  intro known
  have run : computeConstants (Sample.parameterized (.integer {}) (.integer {})) =
      .ok (known, []) := by
    simp only [computeConstants, computeProgram, chainDepth, Program.partsOf, Program.visits,
      Node.walk_eq_search]
    cbv
  exact ⟨run, (computeConstants_once run).2⟩

end BinaryLayout.Bounds
