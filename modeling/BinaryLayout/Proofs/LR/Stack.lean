import BinaryLayout.Proofs.LR.Actions

/-!
# The stack of a parse

The trees on the stack of a parser are joined by edges of the automaton (`Stacked`).  Each item
of the current state comes from the start by a `Spine`: an alternation of expansions, which stay
on the spot, and advances, which go up the stack by one tree.  Spines lead from an item that has
been read to its end down to the place where it was begun.
-/

namespace BinaryLayout.LR

open List

namespace Grammar

/-- The parser generator does not take the symbol for itself, and it is not the empty text. -/
abbrev Unreserved (symbol : String) : Prop :=
  symbol ≠ seedSymbol ∧ symbol ≠ endSymbol ∧ symbol ≠ ""

/-- Reserved symbols stand nowhere in the grammar. -/
def AvoidsReserved (g : Grammar) : Prop :=
  ∀ symbol, (symbol = g.start ∨ ∃ p ∈ g.rules, symbol = p.lhs ∨ symbol ∈ p.rhs) →
    Unreserved symbol

variable {g : Grammar} {p : Production} {symbol : String}

theorem avoidsReserved_of_rules (start : Unreserved g.start)
    (rules : ∀ p ∈ g.rules, ∀ symbol ∈ p.lhs :: p.rhs, Unreserved symbol) :
    g.AvoidsReserved := by
  rintro symbol (rfl | ⟨p, rule, placed⟩)
  · exact start
  · exact rules p rule symbol (mem_cons.mpr placed)

theorem AvoidsReserved.rhs (avoids : g.AvoidsReserved) (member : p ∈ g.productions)
    (placed : symbol ∈ p.rhs) : Unreserved symbol := by
  rcases mem_append.mp member with rule | seed
  · exact avoids symbol (.inr ⟨p, rule, .inr placed⟩)
  · obtain rfl := mem_singleton.mp seed
    exact avoids symbol (.inl (mem_singleton.mp placed))

theorem AvoidsReserved.named_of_terminal (avoids : g.AvoidsReserved)
    (terminal : symbol ∈ g.terminals) : symbol ≠ "" := by
  rcases mem_terminals.mp terminal with ⟨rfl | ⟨p, member, rfl | placed⟩, unlisted⟩
  · decide
  · exact absurd (lhs_mem_nonterminals member) unlisted
  · exact (avoids.rhs member placed).2.2

theorem mem_rules_of_ne_seed (member : p ∈ g.productions) (proper : p ≠ g.seed) : p ∈ g.rules := by
  rcases mem_append.mp member with rule | seed
  · exact rule
  · exact absurd (mem_singleton.mp seed) proper

end Grammar

/-- A tree on the stack, with the state that it leads to. -/
abbrev Frame := Nat × Tree

/-- The state on top of a stack. -/
def top : List Frame → Nat
  | [] => 0
  | frame :: _ => frame.1

theorem state_eq_top (c : Configuration) : c.state = top c.stack := by
  rcases c with ⟨_ | ⟨_, _⟩, _, _⟩ <;> rfl

/-- The tokens that have been read, in order. -/
def readTokens (stack : List Frame) : List Token :=
  stack.reverse.flatMap fun frame => frame.2.tokens

theorem readTokens_append (above below : List Frame) :
    readTokens (above ++ below) = readTokens below ++ readTokens above := by
  rw [readTokens, reverse_append, flatMap_append]
  rfl

theorem readTokens_cons (frame : Frame) (below : List Frame) :
    readTokens (frame :: below) = readTokens below ++ frame.2.tokens := by
  rw [← singleton_append, readTokens_append]
  simp [readTokens]

section Spines

variable {g : Grammar}

variable {p : Production} {t : String}

/-- Each tree on the stack leads along an edge from the state below it. -/
inductive Stacked (C : Collection g) : List Frame → Prop
  | nil : Stacked C []
  | cons {n : Nat} {tree : Tree} {below : List Frame} (stacked : Stacked C below)
      (edge : C.edge (top below) tree.symbol n) : Stacked C ((n, tree) :: below)

/-- How an item comes to be active: from the start, by expanding and advancing. -/
inductive Spine (C : Collection g) : List Frame → Item → Prop
  | start : Spine C [] ⟨g.seed, 0, endSymbol⟩
  | expand {stack : List Frame} {i : Item} {p : Production} {t : String}
      (spine : Spine C stack i) (next : i.next? = some p.lhs) (member : p ∈ g.productions)
      (precedes : i.Precedes g t) : Spine C stack ⟨p, 0, t⟩
  | advance {n : Nat} {tree : Tree} {below : List Frame} {i : Item} (spine : Spine C below i)
      (next : i.next? = some tree.symbol) (edge : C.edge (top below) tree.symbol n) :
      Spine C ((n, tree) :: below) i.advance

variable {C : Collection g} {stack : List Frame} {i : Item}

theorem Spine.items (spine : Spine C stack i) : C.items (top stack) i := by
  induction spine with
  | start => exact .kernel ((C.start _).mpr rfl)
  | expand _ next member precedes ih => exact .expand ih next member precedes
  | @advance _ _ _ i _ next edge ih =>
    exact .kernel ((C.target _ _ _ edge _).mpr ⟨i, ih, next, rfl⟩)

theorem Spine.stacked (spine : Spine C stack i) : Stacked C stack := by
  induction spine with
  | start => exact .nil
  | expand _ _ _ _ ih => exact ih
  | advance _ _ edge ih => exact .cons ih edge

/-- Every item of the current state is at the end of a spine. -/
theorem Stacked.spine (stacked : Stacked C stack) (inside : C.items (top stack) i) :
    Spine C stack i := by
  induction stacked generalizing i with
  | nil =>
    induction inside with
    | kernel inside =>
      obtain rfl := (C.start _).mp inside
      exact .start
    | expand _ next member precedes ih =>
      exact .expand ih next member precedes
  | @cons _ _ _ _ edge below_step =>
    induction inside with
    | kernel inside =>
      rcases (C.target _ _ _ edge _).mp inside with ⟨j, before, next, rfl⟩
      exact .advance (below_step before) next edge
    | expand _ next member precedes ih =>
      exact .expand ih next member precedes

theorem Spine.isOf (spine : Spine C stack i) : i.IsOf g :=
  spine.items.isOf (C.isOf _)

theorem Spine.of_advanced (spine : Spine C stack i) {dot : Nat} (advanced : i = ⟨p, dot + 1, t⟩) :
    ∃ n tree below, stack = (n, tree) :: below ∧ p.rhs[dot]? = some tree.symbol ∧
      Spine C below ⟨p, dot, t⟩ := by
  cases spine with
  | start | expand => cases advanced
  | @advance n tree below i spine next =>
    rcases i with ⟨_, _, _⟩
    cases advanced
    exact ⟨n, tree, below, rfl, next, spine⟩

theorem Spine.begun {dot : Nat} (spine : Spine C stack ⟨p, dot, t⟩) :
    ∃ above below, stack = above ++ below ∧ above.length = dot ∧
      above.reverse.map (·.2.symbol) = p.rhs.take dot ∧ Spine C below ⟨p, 0, t⟩ := by
  induction dot generalizing stack with
  | zero => exact ⟨[], stack, rfl, rfl, rfl, spine⟩
  | succ dot ih =>
    rcases spine.of_advanced rfl with ⟨n, tree, _, rfl, symbol, before⟩
    rcases ih before with ⟨above, below, rfl, length, symbols, begun⟩
    refine ⟨(n, tree) :: above, below, rfl, congrArg (· + 1) length, ?_, begun⟩
    rw [reverse_cons, map_append, symbols, take_add_one, symbol]
    rfl

/-- An item that has just been begun was expected, unless it is the seed. -/
theorem Spine.expected (spine : Spine C stack i) (begun : i = ⟨p, 0, t⟩) (proper : p ≠ g.seed) :
    ∃ j, Spine C stack j ∧ j.next? = some p.lhs ∧ j.Precedes g t := by
  cases spine with
  | start =>
    cases begun
    exact absurd rfl proper
  | expand spine next _ precedes =>
    cases begun
    exact ⟨_, spine, next, precedes⟩
  | advance => cases congrArg Item.dot begun

/-- Nothing can be expanded to the seed, so it was begun on the empty stack. -/
theorem Spine.seed (avoids : g.AvoidsReserved) (spine : Spine C stack i)
    (begun : i = ⟨g.seed, 0, t⟩) : stack = [] := by
  cases spine with
  | start => rfl
  | @expand _ _ _ _ spine next =>
    cases begun
    have placed := mem_of_getElem? next
    exact absurd rfl (avoids.rhs spine.isOf.1 placed).1
  | advance => cases congrArg Item.dot begun

end Spines

end BinaryLayout.LR
