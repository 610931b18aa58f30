import BinaryLayout.Proofs.LR.Steps

/-!
# A parser accepts what its grammar derives

When the next symbol of an item is the root of a derivation tree whose leaves come next, the
parser reads these leaves and puts a tree with the same root and leaves on its stack
(`follows_tree`).  The proof is by induction on the derivation tree.  At each node the production
is among the items of the state because the terminal that comes after the leaves of the tree can
follow the symbol, and the actions are those of the derivation because no other is asked for.
-/

namespace BinaryLayout.LR

open List

section Words

variable {g : Grammar}

theorem begins_forest {trees : List Tree}
    (each : ∀ tree ∈ trees, Begins g [tree.symbol] tree.word.head?) :
    Begins g (trees.map Tree.symbol) (trees.flatMap Tree.word).head? := by
  induction trees with
  | nil => exact .nil
  | cons tree rest ih =>
    have ⟨first, others⟩ := forall_mem_cons.mp each
    rw [map_cons, flatMap_cons, ← singleton_append, head?_append]
    exact first.append fun _ => ih others

theorem Tree.IsDerivation.begins (avoids : g.AvoidsReserved) {tree : Tree}
    (derivation : tree.IsDerivation g) (named : tree.symbol ≠ "") :
    Begins g [tree.symbol] tree.word.head? := by
  induction derivation with
  | leaf terminal =>
    rw [Tree.word_leaf]
    exact .terminal terminal named
  | @node p children _ rule symbols _ ih =>
    have inside := begins_forest fun child listed => by
      have placed : child.symbol ∈ p.rhs := symbols ▸ mem_map_of_mem listed
      exact ih child listed (avoids _ (.inr ⟨p, rule, .inr placed⟩)).2.2
    rw [symbols] at inside
    rw [Tree.word_node]
    exact .expand (Grammar.mem_productions_of_rule rule) (by rwa [append_nil])

theorem upcoming_append (trees : List Tree) (rest : List Token) :
    upcoming (trees.flatMap Tree.tokens ++ rest) =
      (trees.flatMap Tree.word).head?.getD (upcoming rest) := by
  have word : trees.flatMap Tree.word = (trees.flatMap Tree.tokens).map Token.symbol := by
    rw [map_flatMap]
    rfl
  rw [word]
  cases trees.flatMap Tree.tokens <;> rfl

/-- The first leaf of the trees behind the next symbol, or else the lookahead, can follow it. -/
theorem precedes_forest (avoids : g.AvoidsReserved) {i : Item} {trees : List Tree}
    {rest : List Token}
    (derivations : ∀ tree ∈ trees, tree.IsDerivation g) (behind : i.rest = trees.map Tree.symbol)
    (lookahead : i.lookahead = upcoming rest) (isOf : i.IsOf g) :
    i.Precedes g (upcoming (trees.flatMap Tree.tokens ++ rest)) := by
  have terminal := (Grammar.mem_terminals.mp isOf.2.2).2
  have begins := begins_forest fun tree listed => by
    have placed : tree.symbol ∈ i.rest := behind ▸ mem_map_of_mem listed
    exact (derivations tree listed).begins avoids (avoids.rhs isOf.1 (mem_of_mem_drop placed)).2.2
  rw [Item.Precedes, behind, upcoming_append, ← lookahead]
  cases head : (trees.flatMap Tree.word).head? with
  | none =>
    rw [head] at begins
    exact begins.append fun _ => .terminal terminal (avoids.named_of_terminal isOf.2.2)
  | some t =>
    rw [head] at begins
    exact begins.append (f := none) (by rintro ⟨⟩)

end Words

section Following

variable {g : Grammar} {p : Parser} {C : Collection g} {tree : Tree}

/-- Where an item expects the root of a tree, the parser reads its leaves and builds it. -/
def Builds (p : Parser) (C : Collection g) (tree : Tree) : Prop :=
  ∀ (stack : List Frame) (rest : List Token) (index : Nat) (i : Item),
    Parsing C stack (tree.tokens ++ rest) → C.items (top stack) i →
    i.next? = some tree.symbol → i.Precedes g (upcoming rest) →
    ∃ n built later, C.edge (top stack) tree.symbol n ∧ built.symbol = tree.symbol ∧
      built.tokens = tree.tokens ∧ Parsing C ((n, built) :: stack) rest ∧
      p.Reaches (parseAt stack (tree.tokens ++ rest) index)
        (parseAt ((n, built) :: stack) rest later)

theorem builds_leaf (follows : p.Follows C) {t : Token} (terminal : t.symbol ∉ g.nonterminals) :
    Builds p C (.leaf t) := by
  intro stack rest index i parsing inside next _
  rw [Tree.symbol] at next
  rw [Tree.tokens, singleton_append] at parsing ⊢
  rcases C.progress _ _ _ inside next with ⟨n, edge⟩
  have asks : C.Asks (top stack) t.symbol (.shift n) := .shift edge terminal
  refine ⟨n, .leaf t, index + 1, edge, rfl, ?_, parsing.shift asks, ?_⟩
  · rw [Tree.tokens]
  · exact .single (step_shift follows asks)

/-- The trees behind the dot of an item are built one after the other. -/
theorem builds_forest (avoids : g.AvoidsReserved) {trees : List Tree}
    (derivations : ∀ tree ∈ trees, tree.IsDerivation g)
    (each : ∀ tree ∈ trees, Builds p C tree) {stack : List Frame} {rest : List Token}
    (index : Nat) {i : Item} (parsing : Parsing C stack (trees.flatMap Tree.tokens ++ rest))
    (inside : C.items (top stack) i)
    (behind : i.production.rhs.drop i.dot = trees.map Tree.symbol)
    (lookahead : i.lookahead = upcoming rest) :
    ∃ above later, above.reverse.map (·.2.symbol) = trees.map Tree.symbol ∧
      readTokens above = trees.flatMap Tree.tokens ∧ Parsing C (above ++ stack) rest ∧
      C.items (top (above ++ stack)) ⟨i.production, i.production.rhs.length, i.lookahead⟩ ∧
      p.Reaches (parseAt stack (trees.flatMap Tree.tokens ++ rest) index)
        (parseAt (above ++ stack) rest later) := by
  have isOf := inside.isOf (C.isOf _)
  induction trees generalizing stack index i with
  | nil =>
    have dot : i.production.rhs.length = i.dot :=
      Nat.le_antisymm (drop_eq_nil_iff.mp behind) isOf.2.1
    exact ⟨[], index, rfl, rfl, parsing, dot ▸ inside, .refl⟩
  | cons _ _ ih =>
    have ⟨derivation, derivationsOthers⟩ := forall_mem_cons.mp derivations
    have ⟨builds, buildsOthers⟩ := forall_mem_cons.mp each
    rcases Item.drop_eq_cons.mp behind with ⟨next, restEq⟩
    rw [flatMap_cons, append_assoc] at parsing ⊢
    have precedes := precedes_forest avoids derivationsOthers restEq lookahead isOf
    rcases builds stack _ index i parsing inside next precedes with
      ⟨n, built, later, edge, root, leaves, parsingNext, reaches⟩
    have advanced : C.items n i.advance :=
      .kernel ((C.target _ _ _ edge _).mpr ⟨i, inside, next, rfl⟩)
    rcases ih derivationsOthers buildsOthers later parsingNext advanced restEq lookahead
      (advanced.isOf (C.isOf _)) with
      ⟨above, final, symbols, tokens, _, _, reachesFinal⟩
    refine ⟨above ++ [(n, built)], final, ?_, ?_, ?_, ?_, ?_⟩
    · rw [reverse_append, map_append, symbols, map_cons, ← root]
      rfl
    · rw [readTokens_append, tokens, ← leaves]
      simp [readTokens]
    · rwa [append_assoc, singleton_append]
    · rwa [append_assoc, singleton_append]
    · rw [append_assoc, singleton_append]
      exact reaches.trans reachesFinal

theorem builds_node (avoids : g.AvoidsReserved) (follows : p.Follows C) {r : Production}
    {children : List Tree} {location : Option Location} (rule : r ∈ g.rules)
    (symbols : children.map Tree.symbol = r.rhs)
    (derivations : ∀ child ∈ children, child.IsDerivation g)
    (each : ∀ child ∈ children, Builds p C child) :
    Builds p C (.node r children location) := by
  intro stack rest index i parsing inside next precedes
  rw [Tree.symbol] at next ⊢
  rw [Tree.tokens_node] at parsing ⊢
  have proper : r ≠ g.seed := by
    rintro rfl
    exact (avoids _ (.inr ⟨_, rule, .inl rfl⟩)).1 rfl
  have begun : C.items (top stack) ⟨r, 0, upcoming rest⟩ :=
    .expand inside next (Grammar.mem_productions_of_rule rule) precedes
  rcases builds_forest avoids derivations each index parsing begun symbols.symm rfl with
    ⟨_, later, roots, tokens, parsingAbove, complete, reaches⟩
  rcases parsingAbove.reduce_above follows later (roots.trans symbols) (.reduce complete proper) with
    ⟨n, _, edge, step, parsingNext⟩
  refine ⟨n, _, later, edge, rfl, ?_, parsingNext, reaches.tail step⟩
  rw [Tree.tokens_node, flatMap_map, ← tokens]
  rfl

theorem builds_tree (avoids : g.AvoidsReserved) (follows : p.Follows C)
    (derivation : tree.IsDerivation g) : Builds p C tree := by
  induction derivation with
  | leaf terminal => exact builds_leaf follows terminal
  | node rule symbols derivations ih =>
    exact builds_node avoids follows rule symbols derivations ih

theorem ends_accepted (follows : p.Follows C) {n index : Nat}
    (complete : C.items n ⟨g.seed, 1, endSymbol⟩) :
    p.Ends (parseAt [(n, tree)] [] index) (.ok (.ok tree)) := by
  have action : p.action? (parseAt [(n, tree)] [] index) = some .accept :=
    follows.action?_eq_some.mpr (.accept complete rfl)
  refine .accepted ?_
  rw [Parser.step, action]
  rfl

theorem accepts_derivation (avoids : g.AvoidsReserved) (follows : p.Follows C)
    (derivation : tree.IsDerivation g) (root : tree.symbol = g.start)
    (parsing : Parsing C [] tree.tokens) :
    ∃ built, p.Ends (parseAt [] tree.tokens 0) (.ok (.ok built)) := by
  have seed : C.items 0 ⟨g.seed, 0, endSymbol⟩ := .kernel ((C.start _).mpr rfl)
  have next : (⟨g.seed, 0, endSymbol⟩ : Item).next? = some tree.symbol := by
    rw [root]
    rfl
  have ends : endSymbol ∉ g.nonterminals :=
    (Grammar.mem_terminals.mp (seed.isOf (C.isOf 0)).2.2).2
  have named : endSymbol ≠ "" := by decide
  have precedes : (⟨g.seed, 0, endSymbol⟩ : Item).Precedes g (upcoming []) :=
    .terminal ends named
  rw [← append_nil tree.tokens] at parsing
  rcases builds_tree avoids follows derivation [] [] 0 _ parsing seed next precedes with
    ⟨n, built, _, edge, _, _, _, reaches⟩
  rw [append_nil] at reaches
  have complete : C.items n ⟨g.seed, 1, endSymbol⟩ :=
    .kernel ((C.target _ _ _ edge _).mpr ⟨_, seed, next, rfl⟩)
  exact ⟨built, reaches.ends (ends_accepted follows complete)⟩

end Following

end BinaryLayout.LR
