import Mathlib
import BinaryLayout.Proofs.IR.Walk

/-!
# Traversals with parameters

On the way down from the top, parameters are set at every node for what is below it, and a node
that is asked for is handed over together with the parameters that hold there.

Main statement: whether or not branches are left out that cannot hold what is looked for, the same
nodes are handed over in the same order with the same parameters, each of them once.
-/

namespace BinaryLayout.IR

open List

/-- What is made of the parameters at a node, and then by the action if it is called there. -/
structure Actions (σ : Type) where
  enter : Node → σ → σ
  act : Node → σ → σ

/-- What is left of the pattern below a node, and the parameters there. -/
def Actions.pass {σ : Type} (actions : Actions σ) (n : Node) : List Kind × σ → List Kind × σ
  | (pattern, given) =>
    let given := actions.enter n given
    (remaining pattern n.kind, if isTarget pattern n.kind then actions.act n given else given)

/-- The parameters at a visit, from those at the top. -/
def Actions.given {σ : Type} (actions : Actions σ) (start : List Kind × σ) (v : Visit) : σ :=
  actions.enter v.node (v.ancestors.foldr actions.pass start).2

namespace Node

/-- The calls of an action, with the parameters that it gets.  Branches that cannot hold what is
looked for are left out or not. -/
def calls {σ : Type} (actions : Actions σ) (cull : Bool) (skip : List Kind) (trail : List Step)
    (ancestors : List Node) (state : List Kind × σ) (n : Node) : List (Visit × σ) :=
  let here :=
    if isTarget state.1 n.kind then [(⟨trail, n, ancestors⟩, actions.enter n state.2)] else []
  let state := actions.pass n state
  if skip.contains n.kind then here
  else
    here ++ n.children.attach.flatMap fun ⟨(step, child), _⟩ =>
      if !cull || child.kind.canHold (state.1.headD .program) then
        child.calls actions cull skip (step :: trail) (n :: ancestors) state
      else []
termination_by sizeOf n
decreasing_by
  rename_i member _
  exact sizeOf_lt_of_mem_children n _ member

theorem calls_eq {σ : Type} (actions : Actions σ) (cull : Bool) (skip : List Kind)
    (trail : List Step) (ancestors : List Node) (start state : List Kind × σ) (n : Node)
    (isState : ancestors.foldr actions.pass start = state) :
    n.calls actions cull skip trail ancestors state =
      (n.search skip state.1 trail ancestors).map fun v => (v, actions.given start v) := by
  have here : (if isTarget state.1 n.kind then
      [(⟨trail, n, ancestors⟩, actions.enter n state.2)] else []) =
      (if isTarget state.1 n.kind then [⟨trail, n, ancestors⟩] else []).map
        fun v => (v, actions.given start v) := by
    subst isState
    split <;> rfl
  rw [calls, search, here]
  split
  · rfl
  · rw [map_append, map_flatMap]
    refine congrArg _ (flatMap_congr ?_)
    rintro ⟨⟨s, c⟩, isChild⟩ _
    simp only
    split
    · exact calls_eq actions cull skip _ (n :: ancestors) start _ c (by rw [foldr_cons, isState])
    · rename_i cannot
      simp only [Bool.or_eq_true, not_or] at cannot
      rw [search_eq_nil (Bool.not_eq_true _ ▸ cannot.2)]
      rfl
termination_by sizeOf n
decreasing_by exact sizeOf_lt_of_mem_children n _ isChild

/-- Every node is met at an address of its own. -/
theorem nodup_everything (trail : List Step) (ancestors : List Node) (n : Node) :
    ((n.everything trail ancestors).map (·.trail)).Nodup := by
  have longer {s : Step} {c : Node} {v : Visit}
      (below : v ∈ c.everything (s :: trail) (n :: ancestors)) : s :: trail <:+ v.trail := by
    rcases mem_everything.1 below with ⟨a, there⟩
    exact ⟨a.reverse, (trail_of_visitAt there).symm⟩
  rw [everything_eq, map_cons, nodup_cons, map_flatMap, nodup_flatMap]
  refine ⟨fun member => ?_, ?_, ?_⟩
  · simp only [mem_flatMap, mem_map] at member
    rcases member with ⟨_, _, v, below, same⟩
    have length := (longer below).length_le
    rw [same, length_cons] at length
    omega
  · exact fun child isChild => nodup_everything ..
  · refine n.apart_children.imp ?_
    rintro ⟨s, c⟩ ⟨s', c'⟩ differ
    rw [Function.onFun, disjoint_left]
    simp only [mem_map]
    rintro _ ⟨v, below, rfl⟩ ⟨w, below', same⟩
    have first := longer below
    have second := longer below'
    rw [same] at second
    cases (suffix_of_suffix_length_le first second (by simp)).eq_of_length (by simp)
    exact differ rfl
termination_by sizeOf n
decreasing_by exact sizeOf_lt_of_mem_children n _ isChild

end Node

/-- A traversal that leaves out branches hands over what is asked for. -/
theorem Program.calls_eq_wanted {σ : Type} (p : Program) (actions : Actions σ) (start : σ)
    (outer : List Kind) (target : Kind) (skip : List Kind) :
    (∀ cull, (Node.program p).calls actions cull skip [] [] (outer ++ [target], start) =
      (p.visits (outer ++ [target]) skip).map
        fun v => (v, actions.given (outer ++ [target], start) v)) ∧
    p.visits (outer ++ [target]) skip =
      ((Node.program p).everything [] []).filter (Visit.Wanted outer target skip) ∧
    ((p.visits (outer ++ [target]) skip).map Visit.address).Nodup := by
  refine ⟨fun cull => ?_, p.visits_eq_filter outer target skip, ?_⟩
  · rw [Program.visits, Node.walk_eq_search]
    exact Node.calls_eq actions cull skip [] [] _ _ _ rfl
  · have once := (Node.nodup_everything [] [] (.program p)).map (reverse_injective (α := Step))
    rw [map_map] at once
    rw [visits_eq_filter]
    exact once.sublist (filter_sublist.map _)

end BinaryLayout.IR
