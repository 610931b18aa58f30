import Mathlib.Computability.ContextFreeGrammar
import BinaryLayout.LR.Grammar
import BinaryLayout.LR.Tree

/-!
# Derivations and their trees

The language of a grammar is that of Mathlib's context-free grammars.  A symbol counts as a
nonterminal if it stands on the left of a production, so that the same text is never a
nonterminal in one place and a terminal in another.

A tree is a *derivation tree* if every leaf is a terminal and every inner node is a production of
the grammar whose right side is made up by the children.  A sequence of tokens can be derived
exactly if it is the sequence of leaves of a derivation tree.
-/

namespace BinaryLayout.LR

open List

variable {g : Grammar} {symbols : List String} {input : List Token}

namespace Grammar

variable {g : Grammar} {symbol name : String} {p : Production}

theorem mem_nonterminals : symbol ∈ g.nonterminals ↔ ∃ p ∈ g.productions, p.lhs = symbol := by
  simp only [nonterminals, mem_eraseDups, mem_map]

theorem mem_productions_of_rule (rule : p ∈ g.rules) : p ∈ g.productions :=
  mem_append_left _ rule

theorem seed_mem_productions (g : Grammar) : g.seed ∈ g.productions :=
  mem_append_right _ (mem_singleton_self _)

theorem lhs_mem_nonterminals (member : p ∈ g.productions) : p.lhs ∈ g.nonterminals :=
  mem_nonterminals.mpr ⟨p, member, rfl⟩

/-- A symbol as a terminal or a nonterminal. -/
def atom (g : Grammar) (symbol : String) : Symbol String String :=
  if symbol ∈ g.nonterminals then .nonterminal symbol else .terminal symbol

theorem atom_nonterminal (member : symbol ∈ g.nonterminals) :
    g.atom symbol = .nonterminal symbol :=
  if_pos member

theorem atom_terminal (terminal : symbol ∉ g.nonterminals) : g.atom symbol = .terminal symbol :=
  if_neg terminal

theorem eq_of_atom_nonterminal (equal : g.atom symbol = .nonterminal name) : symbol = name := by
  unfold atom at equal
  split at equal
  · exact Symbol.nonterminal.inj equal
  · cases equal

theorem eq_of_atom_terminal (equal : g.atom symbol = .terminal name) :
    symbol = name ∧ name ∉ g.nonterminals := by
  unfold atom at equal
  split at equal
  · cases equal
  · next terminal =>
      cases equal
      exact ⟨rfl, terminal⟩

theorem terminals_of_atoms (equal : symbols.map g.atom = input.map fun t => .terminal t.symbol) :
    symbols = input.map Token.symbol ∧ ∀ t ∈ input, t.symbol ∉ g.nonterminals := by
  induction input generalizing symbols with
  | nil => exact ⟨map_eq_nil_iff.mp equal, fun t member => (not_mem_nil member).elim⟩
  | cons t rest ih =>
    rcases map_eq_cons_iff.mp equal with ⟨_, _, rfl, head, tail⟩
    rcases eq_of_atom_terminal head with ⟨rfl, terminal⟩
    rcases ih tail with ⟨rfl, below⟩
    exact ⟨rfl, forall_mem_cons.mpr ⟨terminal, below⟩⟩

/-- A production as a rewriting rule. -/
def rewriting (g : Grammar) (p : Production) : ContextFreeRule String String :=
  ⟨p.lhs, p.rhs.map g.atom⟩

/-- The grammar as one of Mathlib's. -/
abbrev contextFree (g : Grammar) : ContextFreeGrammar String where
  NT := String
  initial := g.start
  rules := (g.rules.map g.rewriting).toFinset

/-- The sequence of terminals can be derived from the start symbol. -/
def Derivable (g : Grammar) (word : List String) : Prop :=
  g.contextFree.Derives [g.atom g.start] (word.map .terminal)

theorem mem_contextFree_rules {r : ContextFreeRule String String} :
    r ∈ g.contextFree.rules ↔ ∃ p ∈ g.rules, g.rewriting p = r := by
  simp only [mem_toFinset, mem_map]

theorem produces_rhs (rule : p ∈ g.rules) :
    g.contextFree.Produces [g.atom p.lhs] (p.rhs.map g.atom) := by
  rw [atom_nonterminal (lhs_mem_nonterminals (mem_productions_of_rule rule))]
  exact ⟨g.rewriting p, mem_contextFree_rules.mpr ⟨p, rule, rfl⟩,
    ContextFreeRule.Rewrites.input_output⟩

theorem derives_flatMap {α : Type} {members : List α} {form : α → Symbol String String}
    {result : α → List (Symbol String String)}
    (each : ∀ m ∈ members, g.contextFree.Derives [form m] (result m)) :
    g.contextFree.Derives (members.map form) (members.flatMap result) := by
  induction members with
  | nil => exact .refl _
  | cons m rest ih =>
    have first := each m mem_cons_self
    have others := ih fun other member => each other (mem_cons_of_mem _ member)
    simpa only [map_cons, flatMap_cons, singleton_append] using
      (first.append_right _).trans (others.append_left _)

end Grammar

namespace Tree

/-- Every leaf is a terminal, and every inner node a production with its right side below. -/
inductive IsDerivation (g : Grammar) : Tree → Prop
  | leaf {t : Token} (terminal : t.symbol ∉ g.nonterminals) : IsDerivation g (.leaf t)
  | node {p : Production} {children : List Tree} {location : Option Location}
      (rule : p ∈ g.rules) (symbols : children.map symbol = p.rhs)
      (below : ∀ child ∈ children, IsDerivation g child) :
      IsDerivation g (.node p children location)

theorem tokensOfAll_eq_flatMap (trees : List Tree) :
    tokensOfAll trees = trees.flatMap tokens := by
  induction trees with
  | nil => rfl
  | cons _ _ ih =>
    rw [tokensOfAll, ih, flatMap_cons]

@[simp] theorem tokens_node (p : Production) (children : List Tree)
    (location : Option Location) :
    (Tree.node p children location).tokens = children.flatMap tokens := by
  rw [tokens, tokensOfAll_eq_flatMap]

/-- The symbols at the leaves. -/
def word (tree : Tree) : List String :=
  tree.tokens.map Token.symbol

@[simp] theorem word_leaf (t : Token) : (Tree.leaf t).word = [t.symbol] := by
  simp only [word, tokens, map_cons, map_nil]

@[simp] theorem word_node (p : Production) (children : List Tree)
    (location : Option Location) :
    (Tree.node p children location).word = children.flatMap word := by
  simp only [word, tokens_node, map_flatMap]
  rfl

theorem IsDerivation.derives {tree : Tree} (derivation : IsDerivation g tree) :
    g.contextFree.Derives [g.atom tree.symbol] (tree.word.map .terminal) := by
  induction derivation with
  | leaf terminal =>
    rw [symbol, Grammar.atom_terminal terminal, word_leaf]
    exact .refl _
  | @node p children _ rule symbols _ derive =>
    have expanded : g.contextFree.Derives (p.rhs.map g.atom)
        ((children.flatMap word).map .terminal) := by
      rw [← symbols, map_map, map_flatMap]
      exact Grammar.derives_flatMap derive
    rw [word_node]
    exact (Grammar.produces_rhs rule).trans_derives expanded

end Tree

open LR.Tree in
/-- A rewriting step backwards: the trees below a right side become one. -/
theorem Grammar.forest_of_produces {form : List (Symbol String String)}
    (step : g.contextFree.Produces (symbols.map g.atom) form) :
    ∃ after : List String, form = after.map g.atom ∧
      ∀ trees : List Tree, trees.map symbol = after → (∀ tree ∈ trees, IsDerivation g tree) →
        ∃ before : List Tree, before.map symbol = symbols ∧
          before.flatMap tokens = trees.flatMap tokens ∧
          ∀ tree ∈ before, IsDerivation g tree := by
  rcases step with ⟨r, rule, rewrites⟩
  rcases mem_contextFree_rules.mp rule with ⟨p, member, rfl⟩
  rcases rewrites.exists_parts with ⟨_, _, split, rfl⟩
  rcases map_eq_append_iff.mp split with ⟨front, last, rfl, frontEq, rfl⟩
  rcases map_eq_append_iff.mp frontEq with ⟨first, _, rfl, rfl, middleEq⟩
  rcases map_eq_singleton_iff.mp middleEq with ⟨_, rfl, nameEq⟩
  obtain rfl := eq_of_atom_nonterminal nameEq
  refine ⟨first ++ p.rhs ++ last, by simp only [map_append, rewriting], ?_⟩
  intro trees rooted derivations
  rcases map_eq_append_iff.mp rooted with ⟨front, behind, rfl, frontRoots, rfl⟩
  rcases map_eq_append_iff.mp frontRoots with ⟨ahead, children, rfl, rfl, childRoots⟩
  simp only [mem_append] at derivations
  refine ⟨ahead ++ [.node p children none] ++ behind, ?_, ?_, ?_⟩
  · simp only [map_append, map_cons, map_nil, symbol]
    rfl
  · simp only [flatMap_append, flatMap_cons, flatMap_nil, tokens_node, append_nil]
  · intro tree placed
    simp only [mem_append, mem_singleton] at placed
    rcases placed with (placed | rfl) | placed
    · exact derivations tree (.inl (.inl placed))
    · exact .node member childRoots fun child below => derivations child (.inl (.inr below))
    · exact derivations tree (.inr placed)

open LR.Tree in
theorem Grammar.forest_of_derives (derives : g.contextFree.Derives (symbols.map g.atom)
      (input.map fun t => .terminal t.symbol)) :
    ∃ trees : List Tree, trees.map symbol = symbols ∧ trees.flatMap tokens = input ∧
      ∀ tree ∈ trees, IsDerivation g tree := by
  generalize formEq : symbols.map g.atom = form at derives
  induction derives using Relation.ReflTransGen.head_induction_on generalizing symbols with
  | refl =>
    rcases terminals_of_atoms formEq with ⟨rfl, terminal⟩
    refine ⟨input.map .leaf, ?_, ?_, ?_⟩
    · rw [map_map]
      rfl
    · rw [flatMap_map]
      simp only [tokens, flatMap_singleton']
    · intro tree placed
      rcases mem_map.mp placed with ⟨t, member, rfl⟩
      exact .leaf (terminal t member)
  | head step _ ih =>
    subst formEq
    rcases forest_of_produces step with ⟨_, rfl, fold⟩
    rcases ih rfl with ⟨trees, rooted, leaves, derivations⟩
    rcases fold trees rooted derivations with ⟨before, beforeRoots, beforeLeaves, each⟩
    exact ⟨before, beforeRoots, beforeLeaves.trans leaves, each⟩

open LR.Tree in
theorem Grammar.derivable_iff_tree :
    g.Derivable (input.map Token.symbol) ↔
      ∃ tree : Tree, IsDerivation g tree ∧ tree.symbol = g.start ∧ tree.tokens = input := by
  constructor
  · intro derivable
    have derives : g.contextFree.Derives ([g.start].map g.atom)
        (input.map fun t => .terminal t.symbol) := by
      rw [Derivable, map_map] at derivable
      exact derivable
    rcases forest_of_derives derives with ⟨_, rooted, leaves, derivations⟩
    rcases map_eq_singleton_iff.mp rooted with ⟨tree, rfl, root⟩
    exact ⟨tree, derivations tree (mem_singleton_self _), root, by simpa using leaves⟩
  · rintro ⟨tree, derivation, root, rfl⟩
    rw [Derivable, ← root]
    exact derivation.derives

end BinaryLayout.LR
