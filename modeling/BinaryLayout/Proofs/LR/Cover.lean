import BinaryLayout.Proofs.LR.Actions

/-!
# Grammars without conflicts

A *cover* of a grammar is a finite list of sets of items, one of them with the start, which are
closed under expansion and whose moves lead from one to another.  Every state of the automaton
lies inside one of them, so that a cover in which no set asks for two actions shows that the
grammar has no conflicts.  The conditions can be decided by looking at the cover.
-/

namespace BinaryLayout.LR

open List

/-- What a sequence of symbols can begin with, if the nonterminals begin with what is given. -/
def firstIn (g : Grammar) (firsts : List (String × FirstSet)) : List String → FirstSet
  | [] => [none]
  | symbol :: rest =>
    if symbol ∈ g.nonterminals then
      ((firsts.lookup symbol).getD []).filter Option.isSome ++
        if none ∈ (firsts.lookup symbol).getD [] then firstIn g firsts rest else []
    else [some symbol]

/-- Sets of items that may be active together. -/
structure Cover where
  firsts : List (String × FirstSet)
  states : List (List Item)

namespace Cover

/-- The terminals that may follow the next symbol of an item. -/
def follow (v : Cover) (g : Grammar) (i : Item) : List String :=
  (firstIn g v.firsts (i.rest ++ [i.lookahead])).filterMap id

/-- The item has been read to its end. -/
def IsComplete (i : Item) : Prop :=
  i.dot = i.production.rhs.length

instance (i : Item) : Decidable (IsComplete i) :=
  inferInstanceAs (Decidable (_ = _))

/-- The first sets are large enough. -/
def Saturated (v : Cover) (g : Grammar) : Prop :=
  ∀ p ∈ g.productions, ∀ f ∈ firstIn g v.firsts p.rhs, f ∈ (v.firsts.lookup p.lhs).getD []

/-- The set holds what its items expand to. -/
def Expands (v : Cover) (g : Grammar) (state : List Item) : Prop :=
  ∀ i ∈ state, ∀ p ∈ g.productions, i.next? = some p.lhs →
    ∀ t ∈ v.follow g i, (⟨p, 0, t⟩ : Item) ∈ state

/-- The moves over a symbol lead to one of the sets. -/
def Moves (v : Cover) (state : List Item) : Prop :=
  ∀ i ∈ state, ∀ symbol ∈ i.next?, ∃ target ∈ v.states,
    ∀ j ∈ state, j.next? = some symbol → j.advance ∈ target

/-- No two items of the set ask for different actions. -/
def Agrees (state : List Item) : Prop :=
  ∀ i ∈ state, IsComplete i → ∀ j ∈ state,
    j.next? ≠ some i.lookahead ∧
      (IsComplete j → j.lookahead = i.lookahead → j.production = i.production)

instance (v : Cover) (g : Grammar) : Decidable (v.Saturated g) :=
  inferInstanceAs (Decidable (∀ p ∈ g.productions, ∀ f ∈ firstIn g v.firsts p.rhs, _))

instance (v : Cover) (g : Grammar) (state : List Item) : Decidable (v.Expands g state) :=
  inferInstanceAs (Decidable (∀ i ∈ state, ∀ p ∈ g.productions, i.next? = some p.lhs →
    ∀ t ∈ v.follow g i, _))

instance (v : Cover) (state : List Item) : Decidable (v.Moves state) :=
  inferInstanceAs (Decidable (∀ i ∈ state, ∀ symbol ∈ i.next?, ∃ target ∈ v.states,
    ∀ j ∈ state, j.next? = some symbol → _))

instance (state : List Item) : Decidable (Agrees state) :=
  inferInstanceAs (Decidable (∀ i ∈ state, IsComplete i → ∀ j ∈ state, _))

structure Covers (v : Cover) (g : Grammar) : Prop where
  saturated : v.Saturated g
  start : ∃ state ∈ v.states, (⟨g.seed, 0, endSymbol⟩ : Item) ∈ state
  expands : ∀ state ∈ v.states, v.Expands g state
  moves : ∀ state ∈ v.states, v.Moves state
  agrees : ∀ state ∈ v.states, Agrees state

end Cover

theorem mem_firstIn_append {g : Grammar} {firsts : List (String × FirstSet)}
    {symbols rest : List String} {f : Option String} :
    f ∈ firstIn g firsts (symbols ++ rest) ↔
      (f ∈ firstIn g firsts symbols ∧ f ≠ none) ∨
        (none ∈ firstIn g firsts symbols ∧ f ∈ firstIn g firsts rest) := by
  induction symbols with
  | nil => simp [firstIn]
  | cons symbol _ ih =>
    rw [cons_append, firstIn, firstIn]
    by_cases nonterminal : symbol ∈ g.nonterminals
    · simp only [nonterminal, if_true, mem_append, mem_filter]
      by_cases vanishes : none ∈ (firsts.lookup symbol).getD []
      · simp only [vanishes, if_true, ih]
        cases f <;> simp
        tauto
      · cases f <;> simp [vanishes]
    · simp only [nonterminal, if_false, mem_singleton]
      cases f <;> simp

namespace Cover

variable {g : Grammar} {v : Cover}

theorem Saturated.mem_of_begins (saturated : v.Saturated g) {symbols : List String}
    {f : Option String} (begins : Begins g symbols f) : f ∈ firstIn g v.firsts symbols := by
  induction begins with
  | nil => exact mem_singleton_self _
  | terminal terminal _ =>
    rw [firstIn, if_neg terminal]
    exact mem_singleton_self _
  | @expand p rest f member _ ih =>
    have entry : ∀ e ∈ firstIn g v.firsts p.rhs, e ∈ (v.firsts.lookup p.lhs).getD [] :=
      saturated p member
    rw [firstIn, if_pos (Grammar.lhs_mem_nonterminals member), mem_append, mem_filter]
    rcases mem_firstIn_append.mp ih with ⟨inside, isTerminal⟩ | ⟨vanishes, after⟩
    · exact .inl ⟨entry f inside, Option.isSome_iff_ne_none.mpr isTerminal⟩
    · rw [if_pos (entry none vanishes)]
      exact .inr after

theorem Saturated.mem_follow (saturated : v.Saturated g) {i : Item} {t : String}
    (precedes : i.Precedes g t) : t ∈ v.follow g i :=
  mem_filterMap.mpr ⟨some t, saturated.mem_of_begins precedes, rfl⟩

theorem Covers.closure (covers : v.Covers g) {state : List Item} (listed : state ∈ v.states)
    {kernel : Item → Prop} (inside : ∀ i, kernel i → i ∈ state) {i : Item}
    (member : Closure g kernel i) : i ∈ state := by
  induction member with
  | kernel member => exact inside _ member
  | expand _ next production precedes ih =>
    exact covers.expands state listed _ ih _ production next _
      (covers.saturated.mem_follow precedes)

/-- Every state of the automaton lies inside a set of the cover. -/
theorem Covers.reachable (covers : v.Covers g) {C : Collection g} {q : Nat}
    (reachable : Reachable C.edge q) : ∃ state ∈ v.states, ∀ i, C.items q i → i ∈ state := by
  induction reachable with
  | start =>
    rcases covers.start with ⟨state, listed, start⟩
    refine ⟨state, listed, fun i => covers.closure listed fun j inKernel => ?_⟩
    rwa [(C.start j).mp inKernel]
  | @step q n symbol _ edge ih =>
    rcases ih with ⟨state, listed, inside⟩
    rcases C.used _ _ _ edge with ⟨i, item, next⟩
    rcases covers.moves state listed i (inside i item) symbol next with ⟨target, found, moves⟩
    refine ⟨target, found, fun i => covers.closure found fun j inKernel => ?_⟩
    rcases (C.target _ _ _ edge j).mp inKernel with ⟨before, item, next, rfl⟩
    exact moves before (inside before item) next

theorem Covers.functional (covers : v.Covers g) {C : Collection g} {q : Nat} {t : String}
    {a a' : Action} (first : C.Asks q t a) (second : C.Asks q t a') : a = a' := by
  have covered : ∀ i, C.items q i → ∃ state ∈ v.states, ∀ i, C.items q i → i ∈ state := by
    intro i item
    rcases item.exists_kernel with ⟨j, inKernel⟩
    exact covers.reachable (C.reachable q j inKernel)
  -- A complete item leaves no room for a shift, nor for another completion.
  have noShift : ∀ i n, C.items q i → IsComplete i → ¬ C.edge q i.lookahead n := by
    intro i n item complete edge
    rcases covered i item with ⟨state, listed, inside⟩
    rcases C.used _ _ _ edge with ⟨j, other, next⟩
    exact (covers.agrees state listed i (inside i item) complete j (inside j other)).1 next
  have same : ∀ i j, C.items q i → C.items q j → IsComplete i → IsComplete j →
      j.lookahead = i.lookahead → j.production = i.production := by
    intro i j item other complete completeOther lookahead
    rcases covered i item with ⟨state, listed, inside⟩
    exact (covers.agrees state listed i (inside i item) complete j (inside j other)).2
      completeOther lookahead
  cases first with
  | shift edge =>
    cases second with
    | shift other _ => rw [C.deterministic _ _ _ _ edge other]
    | reduce item _ => exact absurd edge (noShift _ _ item rfl)
    | accept item ends => exact absurd (ends ▸ edge) (noShift _ _ item rfl)
  | reduce item proper =>
    cases second with
    | shift edge _ => exact absurd edge (noShift _ _ item rfl)
    | reduce other _ => exact congrArg Action.reduce (same _ _ other item rfl rfl rfl)
    | accept other ends => exact absurd (same _ _ other item rfl rfl ends) proper
  | accept item ends =>
    cases second with
    | shift edge _ => exact absurd (ends ▸ edge) (noShift _ _ item rfl)
    | reduce other proper => exact absurd (same _ _ item other rfl rfl ends) proper
    | accept _ _ => rfl

theorem Covers.exists_table (covers : v.Covers g) (terminal : endSymbol ∉ g.nonterminals) :
    ∃ table, g.table = .ok table ∧ table.conflicts = [] :=
  ⟨_, Grammar.table_of_terminal terminal,
    conflicts_eq_nil terminal fun _ _ _ _ => covers.functional⟩

end Cover

end BinaryLayout.LR
