import BinaryLayout.Proofs.LR.Acceptance

/-!
# Parsing ends

If every nonterminal derives some sequence of terminals, a parse ends for every input.  When a
state asks for a reduction before some terminal, then some input that begins with this terminal
is accepted from there (`Spine.finishes`).  The reductions before the next shift do not depend on
what comes later, so they are those of that input, and there are finitely many of them.

Without the condition a parser may reduce forever: the first sets of a grammar do not tell
whether what a terminal begins can ever be completed.
-/

namespace BinaryLayout.LR

open List

/-- Every nonterminal derives a sequence of terminals. -/
def Grammar.Productive (g : Grammar) : Prop :=
  ∀ p ∈ g.rules, ∃ word : List String,
    g.contextFree.Derives [g.atom p.lhs] (word.map .terminal)

/-- Tokens without locations, none of them the end of the input. -/
def Bare (tokens : List Token) : Prop :=
  ∀ t ∈ tokens, t.location = none ∧ t.symbol ≠ endSymbol

theorem Bare.append {tokens others : List Token} (first : Bare tokens) (second : Bare others) :
    Bare (tokens ++ others) :=
  forall_mem_append.mpr ⟨first, second⟩

section Samples

variable {g : Grammar} {symbols : List String}

theorem Tree.IsDerivation.leaves {tree : Tree} (derivation : tree.IsDerivation g) :
    ∀ t ∈ tree.tokens, t.symbol = tree.symbol ∨ ∃ p ∈ g.rules, t.symbol ∈ p.rhs := by
  induction derivation with
  | leaf _ =>
    intro t listed
    rw [Tree.tokens] at listed
    obtain rfl := mem_singleton.mp listed
    exact .inl rfl
  | @node p _ _ rule symbols _ ih =>
    intro t listed
    rw [Tree.tokens_node] at listed
    rcases mem_flatMap.mp listed with ⟨child, placed, inside⟩
    rcases ih child placed t inside with own | other
    · have root : child.symbol ∈ p.rhs := by
        rw [← symbols]
        exact mem_map_of_mem placed
      exact .inr ⟨p, rule, own ▸ root⟩
    · exact .inr other

/-- A sequence of trees that can serve as a sample of what some symbols derive. -/
structure Samples (g : Grammar) (symbols : List String) (trees : List Tree) : Prop where
  roots : trees.map Tree.symbol = symbols
  derivations : ∀ tree ∈ trees, tree.IsDerivation g
  bare : Bare (trees.flatMap Tree.tokens)

theorem exists_sample (avoids : g.AvoidsReserved) (productive : g.Productive) {symbol : String}
    (proper : Grammar.Unreserved symbol) :
    ∃ tree, Samples g [symbol] [tree] := by
  by_cases nonterminal : symbol ∈ g.nonterminals
  · rcases Grammar.mem_nonterminals.mp nonterminal with ⟨p, member, rfl⟩
    have rule : p ∈ g.rules := by
      refine Grammar.mem_rules_of_ne_seed member ?_
      rintro rfl
      exact proper.1 rfl
    rcases productive p rule with ⟨word, derives⟩
    let input : List Token := word.map fun t => ⟨t, "", none⟩
    have form : g.contextFree.Derives ([p.lhs].map g.atom)
        (input.map fun t => .terminal t.symbol) := by
      rw [map_map]
      exact derives
    rcases Grammar.forest_of_derives form with ⟨_, roots, leaves, derivations⟩
    rcases map_eq_singleton_iff.mp roots with ⟨tree, rfl, root⟩
    refine ⟨tree, roots, derivations, fun t listed => ?_⟩
    have sample : t ∈ input := by rwa [← leaves]
    rcases mem_map.mp sample with ⟨_, _, rfl⟩
    refine ⟨rfl, ?_⟩
    have derivation := derivations tree (mem_singleton_self _)
    rcases derivation.leaves _ (by simpa using listed) with own | ⟨q, other, placed⟩
    · rw [own, root]
      exact proper.2.1
    · exact (avoids _ (.inr ⟨q, other, .inr placed⟩)).2.1
  · refine ⟨.leaf ⟨symbol, "", none⟩, rfl, ?_, ?_⟩
    · exact forall_mem_singleton.mpr (.leaf nonterminal)
    · simp [Bare, Tree.tokens, proper.2.1]

theorem Samples.cons {symbol : String} {tree : Tree} {trees : List Tree}
    (first : Samples g [symbol] [tree]) (others : Samples g symbols trees) :
    Samples g (symbol :: symbols) (tree :: trees) := by
  refine ⟨?_, ?_, ?_⟩
  · have root := first.roots
    rw [map_cons, others.roots]
    simpa using root
  · exact forall_mem_cons.mpr ⟨first.derivations tree (mem_singleton_self _), others.derivations⟩
  · have bare := first.bare.append others.bare
    simpa using bare

theorem exists_samples (avoids : g.AvoidsReserved) (productive : g.Productive)
    (proper : ∀ s ∈ symbols, Grammar.Unreserved s) :
    ∃ trees, Samples g symbols trees := by
  induction symbols with
  | nil => exact ⟨[], rfl, fun _ member => (not_mem_nil member).elim,
      fun _ member => (not_mem_nil member).elim⟩
  | cons _ _ ih =>
    have ⟨own, others⟩ := forall_mem_cons.mp proper
    rcases exists_sample avoids productive own with ⟨tree, first⟩
    rcases ih others with ⟨trees, samples⟩
    exact ⟨tree :: trees, first.cons samples⟩

/-- What can begin with a terminal has a sample that does, or one without leaves if the terminal
is that behind it. -/
theorem samples_of_begins (avoids : g.AvoidsReserved) (productive : g.Productive)
    {form symbols : List String} {f : Option String} {lookahead t : String}
    (begins : Begins g form f) (split : form = symbols ++ [lookahead]) (isTerminal : f = some t)
    (terminal : lookahead ∉ g.nonterminals)
    (proper : ∀ s ∈ symbols, Grammar.Unreserved s) :
    ∃ trees, Samples g symbols trees ∧ (trees.flatMap Tree.word).head?.getD lookahead = t := by
  induction begins generalizing symbols with
  | nil => exact absurd split.symm (by simp)
  | terminal unlisted _ =>
    cases isTerminal
    cases symbols with
    | nil =>
      rcases exists_samples avoids productive proper with ⟨trees, samples⟩
      obtain rfl : trees = [] := map_eq_nil_iff.mp samples.roots
      exact ⟨[], samples, (List.cons.inj split).1.symm⟩
    | cons symbol =>
      obtain rfl : t = symbol := (List.cons.inj split).1
      rcases forall_mem_cons.mp proper with ⟨own, properOthers⟩
      rcases exists_samples avoids productive properOthers with ⟨trees, samples⟩
      have first : Samples g [t] [.leaf ⟨t, "", none⟩] := by
        refine ⟨rfl, forall_mem_singleton.mpr (.leaf unlisted), ?_⟩
        simp [Bare, Tree.tokens, own.2.1]
      exact ⟨_, first.cons samples, by simp⟩
  | @expand p rest f member _ ih =>
    cases symbols with
    | nil =>
      have own : p.lhs = lookahead := (List.cons.inj split).1
      exact absurd (Grammar.lhs_mem_nonterminals member) (own ▸ terminal)
    | cons _ others =>
      rcases List.cons.inj split with ⟨rfl, rfl⟩
      rcases forall_mem_cons.mp proper with ⟨own, properOthers⟩
      have rule : p ∈ g.rules := by
        refine Grammar.mem_rules_of_ne_seed member ?_
        rintro rfl
        exact own.1 rfl
      have properAll : ∀ s ∈ p.rhs ++ others, Grammar.Unreserved s :=
        forall_mem_append.mpr ⟨fun s placed => avoids.rhs member placed, properOthers⟩
      rcases ih (append_assoc _ _ _).symm isTerminal properAll with
        ⟨trees, samples, head⟩
      rcases map_eq_append_iff.mp samples.roots with
        ⟨children, behind, rfl, childRoots, behindRoots⟩
      rcases forall_mem_append.mp samples.derivations with ⟨below, after⟩
      refine ⟨.node p children none :: behind, ⟨?_, ?_, ?_⟩, ?_⟩
      · rw [map_cons, behindRoots]
        rfl
      · exact forall_mem_cons.mpr ⟨.node rule childRoots below, after⟩
      · have bare := samples.bare
        rw [flatMap_append] at bare
        rwa [flatMap_cons, Tree.tokens_node]
      · rw [flatMap_append] at head
        rwa [flatMap_cons, Tree.word_node]

end Samples

section Finishing

variable {g : Grammar} {p : Parser} {C : Collection g}

variable {stack : List Frame} {i : Item} {rest sample : List Token} {index number : Nat}

/-- An item moves up the stack over the trees that it expects. -/
theorem Stacked.items_above {above : List Frame} (stacked : Stacked C (above ++ stack))
    (inside : C.items (top stack) i)
    (expected : above.reverse.map (·.2.symbol) <+: i.production.rhs.drop i.dot) :
    C.items (top (above ++ stack)) ⟨i.production, i.dot + above.length, i.lookahead⟩ := by
  induction above with
  | nil => exact inside
  | cons frame others ih =>
    rw [reverse_cons, map_append] at expected
    cases stacked with
    | cons below edge =>
      have before := ih below ((prefix_append _ _).trans expected)
      refine .kernel ((C.target _ _ _ edge _).mpr ⟨_, before, ?_, rfl⟩)
      rcases expected with ⟨_, split⟩
      have next := congrArg (·[others.length]?) split
      simp [getElem?_drop] at next
      exact next.symm

theorem Parsing.of_bare (parsing : Parsing C stack rest) (bare : Bare sample) :
    Parsing C stack sample := by
  refine ⟨parsing.stacked, parsing.derivations, parsing.spans, ?_, fun t listed => (bare t listed).2⟩
  have read := parsing.inOrder.sublist (sublist_append_left (readTokens stack) rest)
  rwa [InOrder, knownLocations_append_none fun t listed => (bare t listed).1]

/-- Once what an item expects is on the stack, some input with its lookahead is accepted. -/
theorem Spine.finishes (avoids : g.AvoidsReserved) (productive : g.Productive)
    (follows : p.Follows C) (spine : Spine C stack i) :
    ∃ sample, upcoming sample = i.lookahead ∧ Bare sample ∧
      ∀ (above : List Frame) (index : Nat),
        above.reverse.map (·.2.symbol) = i.production.rhs.drop i.dot →
        Parsing C (above ++ stack) sample →
        ∃ tree, p.Ends (parseAt (above ++ stack) sample index) (.ok (.ok tree)) := by
  induction spine with
  | start =>
    refine ⟨[], rfl, fun _ member => (not_mem_nil member).elim, ?_⟩
    intro above index symbols parsing
    have seed : C.items (top []) ⟨g.seed, 0, endSymbol⟩ := .kernel ((C.start _).mpr rfl)
    have complete := parsing.stacked.items_above seed (symbols ▸ prefix_rfl)
    have single : above.length = 1 := by
      have lengths := congrArg List.length symbols
      simpa [Grammar.seed] using lengths
    rcases length_eq_one_iff.mp single with ⟨⟨n, tree⟩, rfl⟩
    exact ⟨tree, ends_accepted follows complete⟩
  | @advance n tree _ i _ next _ ih =>
    rcases ih with ⟨sample, first, bare, ends⟩
    refine ⟨sample, first, bare, fun above index symbols parsing => ?_⟩
    have whole : (above ++ [(n, tree)]).reverse.map (·.2.symbol) =
        i.production.rhs.drop i.dot := by
      rw [Item.drop_eq_cons.mpr ⟨next, rfl⟩, reverse_append, map_append, symbols]
      rfl
    have result := ends (above ++ [(n, tree)]) index whole
    rw [append_assoc, singleton_append] at result
    exact result parsing
  | @expand stack i r t spine next member precedes ih =>
    have isOf := spine.isOf
    have nextMember := mem_of_getElem? next
    rcases ih with ⟨sample, first, bare, ends⟩
    have properRest : ∀ s ∈ i.rest, Grammar.Unreserved s := fun s placed =>
      avoids.rhs isOf.1 (mem_of_mem_drop placed)
    rcases samples_of_begins avoids productive precedes rfl rfl
      (Grammar.mem_terminals.mp isOf.2.2).2 properRest with ⟨trees, samples, head⟩
    have proper : r ≠ g.seed := by
      rintro rfl
      exact (avoids.rhs isOf.1 nextMember).1 rfl
    have upcomingEq : upcoming (trees.flatMap Tree.tokens ++ sample) = t := by
      rw [upcoming_append, first, head]
    refine ⟨trees.flatMap Tree.tokens ++ sample, upcomingEq, samples.bare.append bare, ?_⟩
    intro above index symbols parsing
    -- The right side is on the stack: it is reduced, and the item behind goes on from there.
    have begun : C.items (top stack) ⟨r, 0, t⟩ := (spine.expand next member precedes).items
    have complete := parsing.stacked.items_above begun (symbols ▸ prefix_rfl)
    have length : above.length = r.rhs.length := by
      have lengths := congrArg List.length symbols
      simpa using lengths
    have asks : C.Asks (top (above ++ stack)) (upcoming (trees.flatMap Tree.tokens ++ sample))
        (.reduce r) := by
      rw [upcomingEq]
      refine .reduce ?_ proper
      simpa [length] using complete
    rcases parsing.reduce_above follows index symbols asks with
      ⟨n, location, edge, step, parsingNext⟩
    have advanced : C.items n i.advance :=
      .kernel ((C.target _ _ _ edge _).mpr ⟨i, spine.items, next, rfl⟩)
    rcases builds_forest avoids samples.derivations
      (fun tree listed => builds_tree avoids follows (samples.derivations tree listed)) index
      parsingNext advanced samples.roots.symm first.symm with
      ⟨frames, later, roots, _, parsingLater, _, reaches⟩
    have whole : (frames ++ [(n, Tree.node r (above.reverse.map (·.2)) location)]).reverse.map
        (·.2.symbol) = i.production.rhs.drop i.dot := by
      rw [Item.drop_eq_cons.mpr ⟨next, rfl⟩, reverse_append, map_append, roots, samples.roots]
      rfl
    have result := ends _ later whole
    rw [append_assoc, singleton_append] at result
    rcases result parsingLater with ⟨tree, ended⟩
    exact ⟨tree, .next step (reaches.ends ended)⟩

/-- The parse from a configuration ends, with a tree or an error. -/
def Terminates (p : Parser) (stack : List Frame) (rest : List Token) : Prop :=
  ∀ index, ∃ result, p.Ends (parseAt stack rest index) (.ok result)

theorem step_reduce_congr (follows : p.Follows C) {after : List Frame} {others : List Token}
    {r : Production} (asks : C.Asks (top stack) (upcoming rest) (.reduce r))
    (same : upcoming others = upcoming rest)
    (step : p.step (parseAt stack rest index) = .next (parseAt after rest index)) :
    p.step (parseAt stack others number) = .next (parseAt after others number) := by
  have action : p.action? (parseAt stack rest index) = some (.reduce r) :=
    follows.action?_eq_some.mpr asks
  have actionOther : p.action? (parseAt stack others number) = some (.reduce r) :=
    follows.action?_eq_some.mpr (same ▸ asks)
  rw [Parser.step, action] at step
  rw [Parser.step, actionOther]
  simp only [Parser.reduce, parseAt] at step ⊢
  split at step
  · cases step
  · next location merged =>
      split at step
      · next target goto =>
          cases step
          rfl
      · cases step

/-- A parse that would end after the next token ends, or goes on by a reduction. -/
theorem Parsing.ends_or_reduces (avoids : g.AvoidsReserved) (follows : p.Follows C)
    (parsing : Parsing C stack rest) (index : Nat)
    (later : ∀ t others after, rest = t :: others → Parsing C after others →
      Terminates p after others) :
    (∃ result, p.Ends (parseAt stack rest index) (.ok result)) ∨
      ∃ r after, C.Asks (top stack) (upcoming rest) (.reduce r) ∧ Parsing C after rest ∧
        p.step (parseAt stack rest index) = .next (parseAt after rest index) := by
  rcases parsing.step_cases avoids follows index with
    ⟨t, others, n, split, shifted, step⟩ | ⟨r, after, asks, _, reduced, step⟩ |
    ⟨n, _, _, _, _, step⟩ | ⟨e, step⟩
  · rcases later t others _ split shifted (index + 1) with ⟨result, ends⟩
    exact .inl ⟨result, .next step ends⟩
  · exact .inr ⟨r, after, asks, reduced, step⟩
  · exact .inl ⟨_, .accepted step⟩
  · exact .inl ⟨_, .rejected step⟩

/-- The reductions before a token are those of any other input that begins with its symbol. -/
theorem Parsing.ends_like (avoids : g.AvoidsReserved) (follows : p.Follows C) {c : Configuration}
    {r : Checked (Except ParseError Tree)} (ends : p.Ends c r)
    (position : c = parseAt stack sample number) (same : upcoming sample = upcoming rest)
    (parsing : Parsing C stack rest)
    (later : ∀ t others after, rest = t :: others → Parsing C after others →
      Terminates p after others) : ∃ result, p.Ends (parseAt stack rest index) (.ok result) := by
  induction ends generalizing stack index with
  | accepted step | rejected step | failed step =>
    subst position
    rcases parsing.ends_or_reduces avoids follows index later with done | ⟨r, after, asks, _, reduces⟩
    · exact done
    · cases step.symm.trans (step_reduce_congr follows asks same reduces)
  | next step _ ih =>
    subst position
    rcases parsing.ends_or_reduces avoids follows index later with
      done | ⟨r, after, asks, reduced, reduces⟩
    · exact done
    · cases step.symm.trans (step_reduce_congr follows asks same reduces)
      rcases ih rfl reduced with ⟨result, ends⟩
      exact ⟨result, .next reduces ends⟩

/-- Every parse ends, if every nonterminal derives a sequence of terminals. -/
theorem Parsing.terminates (avoids : g.AvoidsReserved) (productive : g.Productive)
    (follows : p.Follows C) (parsing : Parsing C stack rest) : Terminates p stack rest := by
  have one : ∀ (rest : List Token) (stack : List Frame), Parsing C stack rest →
      (∀ t others after, rest = t :: others → Parsing C after others →
        Terminates p after others) → Terminates p stack rest := by
    intro rest stack parsing later index
    rcases parsing.ends_or_reduces avoids follows index later with done | ⟨r, _, asks, _, _⟩
    · exact done
    · cases asks with
      | reduce item =>
        rcases (parsing.stacked.spine item).finishes avoids productive follows with
          ⟨_, first, bare, ends⟩
        rcases ends [] 0 drop_length.symm (parsing.of_bare bare) with ⟨_, ended⟩
        exact parsing.ends_like avoids follows ended rfl first later
  induction rest generalizing stack with
  | nil => exact one [] stack parsing fun _ _ _ split => absurd split (cons_ne_nil _ _).symm
  | cons t rest ih =>
    refine one (t :: rest) stack parsing fun _ others after split parsingLater => ?_
    obtain rfl : rest = others := (List.cons.inj split).2
    exact ih parsingLater

end Finishing

end BinaryLayout.LR
