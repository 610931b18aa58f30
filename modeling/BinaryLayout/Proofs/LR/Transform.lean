import Mathlib.Data.List.Induction
import BinaryLayout.LR.Transform

/-!
# Transforming a tree is folding it

The recursive fold of a tree handles the children of a node from the last to the first, and then
the node.  `outcome` says what a stack of nodes leads to if each of them is folded when it comes to
the top.

Main statement: in every lawful monad the transformation of a tree is its fold, with the
productions of the tree added to those noted before, and the handler of each node is called once.
-/

namespace BinaryLayout.LR

open List

variable {m : Type → Type} [Monad m] {α : Type}

/-- Handlers that also keep a log of the nodes that they were called for. -/
def Handlers.logged (h : Handlers m α) : Handlers (StateT (List Tree) m) α where
  token t := do
    modify (· ++ [.leaf t])
    h.token t
  production p tree results := do
    modify (· ++ [tree])
    h.production p tree results

namespace Tree

/-! ## Folds -/

mutual

def fold (h : Handlers m α) : Tree → m α
  | .leaf token => h.token token
  | .node p children location => do
    h.production p (.node p children location) (← foldAll h children)

/-- What becomes of several trees, in their order, when the last one is handled first. -/
def foldAll (h : Handlers m α) : List Tree → m (List α)
  | [] => pure []
  | tree :: rest => do
    let others ← foldAll h rest
    return (← fold h tree) :: others

end

mutual

/-- The nodes of a tree in the order in which a fold handles them. -/
def calls : Tree → List Tree
  | .leaf token => [.leaf token]
  | .node p children location => callsOfAll children ++ [.node p children location]

def callsOfAll : List Tree → List Tree
  | [] => []
  | tree :: rest => callsOfAll rest ++ calls tree

end

mutual

def productions : Tree → List Production
  | .leaf _ => []
  | .node p children _ => p :: productionsOfAll children

def productionsOfAll : List Tree → List Production
  | [] => []
  | tree :: rest => productions tree ++ productionsOfAll rest

end

mutual

/-- The productions of a tree are noted. -/
def noted (used : List Production) : Tree → List Production
  | .leaf _ => used
  | .node p children _ => notedAll (used.insert p) children

def notedAll (used : List Production) : List Tree → List Production
  | [] => used
  | tree :: rest => noted (notedAll used rest) tree

end

mutual

theorem mem_noted {p : Production} (used : List Production) (tree : Tree) :
    p ∈ noted used tree ↔ p ∈ used ∨ p ∈ tree.productions := by
  cases tree with
  | leaf => simp [noted, productions]
  | node q children =>
    rw [noted, mem_notedAll, mem_insert_iff, productions, mem_cons]
    tauto

theorem mem_notedAll {p : Production} (used : List Production) (trees : List Tree) :
    p ∈ notedAll used trees ↔ p ∈ used ∨ p ∈ productionsOfAll trees := by
  cases trees with
  | nil => simp [notedAll, productionsOfAll]
  | cons tree rest =>
    rw [notedAll, mem_noted, mem_notedAll, productionsOfAll, mem_append]
    tauto

end

theorem noted_eq (used : List Production) (tree : Tree) :
    noted used tree = notedAll (noteRule used tree) tree.children := by
  cases tree <;> rfl

theorem notedAll_append (used : List Production) (trees : List Tree) (last : Tree) :
    notedAll used (trees ++ [last]) = notedAll (noted used last) trees := by
  induction trees with
  | nil => rfl
  | cons first rest ih => rw [cons_append, notedAll, ih, notedAll]

section Lawful

variable [LawfulMonad m] {h : Handlers m α}

theorem fold_eq (tree : Tree) : tree.fold h = foldAll h tree.children >>= h.handle tree := by
  cases tree with
  | leaf => simp [fold, children, foldAll, Handlers.handle]
  | node => rfl

theorem foldAll_append (trees : List Tree) (last : Tree) :
    foldAll h (trees ++ [last]) = do
      let a ← last.fold h
      return (← foldAll h trees) ++ [a] := by
  induction trees with
  | nil => simp [foldAll]
  | cons first rest ih => simp [foldAll, ih]

mutual

theorem run_fold_logged (tree : Tree) (log : List Tree) :
    (tree.fold h.logged).run log = (fun a => (a, log ++ tree.calls)) <$> tree.fold h := by
  cases tree with
  | leaf => simp [fold, calls, Handlers.logged]
  | node p children location =>
    rw [fold, StateT.run_bind, run_foldAll_logged children log]
    simp [fold, calls, Handlers.logged]

theorem run_foldAll_logged (trees : List Tree) (log : List Tree) :
    (foldAll h.logged trees).run log =
      (fun results => (results, log ++ callsOfAll trees)) <$> foldAll h trees := by
  cases trees with
  | nil => simp [foldAll, callsOfAll]
  | cons tree rest =>
    simp [foldAll, callsOfAll, run_foldAll_logged rest, run_fold_logged tree]

end

end Lawful

/-! ## What a stack leads to -/

section Stack

variable [MonadExceptOf Failure m]

/-- What becomes of a node on the stack. -/
def Pending.value (h : Handlers m α) (lists : Array (List α)) (x : Pending) : m α :=
  match x.results with
  | none => x.node.fold h
  | some own => h.handle x.node (lists[own]?.getD [])

/-- Productions are noted when a node is at the top of the stack for the first time. -/
def Pending.noted (used : List Production) (x : Pending) : List Production :=
  match x.results with
  | none => x.node.noted used
  | some _ => used

def outcome (h : Handlers m α) (used : List Production) (lists : Array (List α)) :
    List Pending → m (α × List Production)
  | [] => throw .outOfRange
  | x :: below => do
    let a ← x.value h lists
    match x.parent with
    | none => return (a, x.noted used)
    | some list => outcome h (x.noted used) (lists.modify list (a :: ·)) below

/-- A stack uses only lists with numbers below some bound. -/
def Within (bound : Nat) (stack : List Pending) : Prop :=
  ∀ x ∈ stack, (∀ list, x.parent = some list → list < bound) ∧
    ∀ own, x.results = some own → own < bound

variable {h : Handlers m α} {lists lists' : Array (List α)} {used : List Production}
  {stack : List Pending} {bound : Nat}

/-- Lists that a stack does not use make no difference. -/
theorem outcome_congr (within : Within bound stack)
    (same : ∀ i < bound, lists[i]? = lists'[i]?) :
    outcome h used lists stack = outcome h used lists' stack := by
  induction stack generalizing used lists lists' with
  | nil => rfl
  | cons x below ih =>
    rcases forall_mem_cons.1 within with ⟨own, others⟩
    have sameValue : x.value h lists = x.value h lists' := by
      unfold Pending.value
      cases isOwn : x.results with
      | none => rfl
      | some list => simp only [same list (own.2 list isOwn)]
    rw [outcome, outcome, sameValue]
    refine bind_congr fun a => ?_
    cases x.parent with
    | none => rfl
    | some list =>
      refine ih others fun i isBelow => ?_
      rw [Array.getElem?_modify, Array.getElem?_modify, same i isBelow]

variable [LawfulMonad m] {parent : Option Nat}

/-- The children of a node are folded from the last to the first, and what becomes of them is put
in front of what is in the list. -/
theorem outcome_children (trees : List Tree) (own : Nat) :
    outcome h used lists ((trees.map (⟨·, some own, none⟩)).reverse ++ stack) =
      foldAll h trees >>= fun results =>
        outcome h (notedAll used trees) (lists.modify own (results ++ ·)) stack := by
  induction trees using List.reverseRecOn generalizing used lists with
  | nil =>
    have same : lists.modify own (fun results => results) = lists := by
      refine Array.ext_getElem? fun i => ?_
      simp [Array.getElem?_modify]
    simp [foldAll, notedAll, same]
  | append_singleton trees last ih =>
    have both (a : α) (results : List α) :
        (lists.modify own (a :: ·)).modify own (results ++ ·) =
          lists.modify own (results ++ a :: ·) := by
      refine Array.ext_getElem? fun i => ?_
      simp only [Array.getElem?_modify]
      split <;> simp [Function.comp_def]
    simp [foldAll_append, notedAll_append, outcome, Pending.value, Pending.noted, ih, both]

/-- Putting the children of a node on the stack does not change what the stack leads to. -/
theorem outcome_opened {tree : Tree} (within : Within lists.size (⟨tree, parent, none⟩ :: stack)) :
    outcome h (noteRule used tree) (lists.push [])
        ((tree.children.map (⟨·, some lists.size, none⟩)).reverse ++
          ⟨tree, parent, some lists.size⟩ :: stack) =
      outcome h used lists (⟨tree, parent, none⟩ :: stack) := by
  have own (results : List α) :
      ((lists.push []).modify lists.size (results ++ ·))[lists.size]? = some results := by
    rw [Array.getElem?_modify, if_pos rfl, Array.getElem?_push, if_pos rfl, Option.map_some,
      append_nil]
  rw [outcome_children, outcome]
  simp only [outcome, Pending.value, Pending.noted, own, Option.getD_some, noted_eq, fold_eq,
    bind_assoc]
  refine bind_congr fun results => bind_congr fun a => ?_
  cases parent with
  | none => rfl
  | some list =>
    refine outcome_congr (forall_mem_cons.1 within).2 fun i isBelow => ?_
    simp only [Array.getElem?_modify, Array.getElem?_push, if_neg (Nat.ne_of_gt isBelow),
      if_neg (Nat.ne_of_lt isBelow)]

theorem Within.mono {bound' : Nat} (within : Within bound stack) (le : bound ≤ bound') :
    Within bound' stack :=
  fun x member => ⟨fun list isParent => Nat.lt_of_lt_of_le ((within x member).1 list isParent) le,
    fun own isOwn => Nat.lt_of_lt_of_le ((within x member).2 own isOwn) le⟩

theorem Within.opened {tree : Tree} (within : Within bound (⟨tree, parent, none⟩ :: stack)) :
    Within (bound + 1) ((tree.children.map (⟨·, some bound, none⟩)).reverse ++
      ⟨tree, parent, some bound⟩ :: stack) := by
  rcases forall_mem_cons.1 (within.mono (Nat.le_succ bound)) with ⟨own, others⟩
  intro x member
  rw [mem_append, mem_reverse, mem_cons] at member
  rcases member with isChild | rfl | isBelow
  · rcases mem_map.1 isChild with ⟨child, _, rfl⟩
    simp
  · exact ⟨own.1, by simp⟩
  · exact others x isBelow

/-- Working through a stack gives what it leads to. -/
theorem transformFrom_eq (within : Within lists.size stack) :
    transformFrom h used lists stack = outcome h used lists stack := by
  fun_induction transformFrom h used lists stack with
  | case1 => rfl
  | case2 used lists tree parent below own ih =>
    rw [ih (by simpa using within.opened)]
    exact outcome_opened within
  | case3 used lists tree parent own below ih =>
    rw [outcome]
    refine bind_congr fun a => ?_
    cases parent with
    | none => rfl
    | some list =>
      refine ih a list ?_
      rw [Array.size_modify]
      exact (forall_mem_cons.1 within).2

variable (h)

theorem transform_eq (used : List Production) (tree : Tree) :
    tree.transform h used = (fun a => (a, tree.noted used)) <$> tree.fold h := by
  rw [transform, transformFrom_eq (by simp [Within])]
  simp [outcome, Pending.value, Pending.noted]

/-- A tree is transformed by folding it.  The productions in it are noted, and the handlers are
called for its nodes one by one, for each after its children. -/
theorem transform_eq_fold (used : List Production) (tree : Tree) :
    ∃ used', (∀ p, p ∈ used' ↔ p ∈ used ∨ p ∈ tree.productions) ∧
      tree.transform h used = (fun a => (a, used')) <$> tree.fold h ∧
      ∀ log, (tree.transform h.logged used).run log =
        (fun a => ((a, used'), log ++ tree.calls)) <$> tree.fold h := by
  refine ⟨tree.noted used, fun p => mem_noted used tree, transform_eq h used tree, fun log => ?_⟩
  rw [transform_eq, StateT.run_map, run_fold_logged, Functor.map_map]

end Stack

/-! ## A tree with an empty node -/

namespace Sample

def rule : Production := ⟨"S", ["a", "E", "b"]⟩

def nothing : Production := ⟨"E", []⟩

def leaf (text : String) : Tree :=
  .leaf ⟨text, text, none⟩

def tree : Tree :=
  .node rule [leaf "a", .node nothing [] none, leaf "b"] none

def texts : Handlers Checked (List String) where
  token t := pure [t.text]
  production _ _ results := pure results.flatten

end Sample

theorem transform_eq_fold_sample :
    ∃ used, (∀ p, p ∈ used ↔ p ∈ [Sample.rule, Sample.nothing]) ∧
      Sample.tree.transform Sample.texts [] = .ok (["a", "b"], used) ∧
      (Sample.tree.transform Sample.texts.logged []).run [] = .ok ((["a", "b"], used),
        [Sample.leaf "b", .node Sample.nothing [] none, Sample.leaf "a", Sample.tree]) := by
  rcases transform_eq_fold Sample.texts [] Sample.tree with ⟨used, members, result, calls⟩
  refine ⟨used, fun p => (members p).trans ?_, result, calls []⟩
  simp [Sample.tree, Sample.leaf, productions, productionsOfAll]

end Tree

end BinaryLayout.LR
