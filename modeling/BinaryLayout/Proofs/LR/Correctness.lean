import BinaryLayout.Proofs.LR.Cover
import BinaryLayout.Proofs.LR.Termination

/-!
# Correctness of parsing

A parser whose table has no conflicts accepts exactly what the grammar derives, and builds a
derivation tree with the given leaves.

Two conditions are needed.  The known locations of the input have to be in order, since a node is
located from the first of them to the last: `parse_backwards`.  And parsing is only sure to end
if every nonterminal derives some sequence of terminals: `parse_endless`.
-/

namespace BinaryLayout.LR

open List

theorem Parser.parseTokens_eq_ok {p : Parser} {input : List Token}
    {result : Except ParseError Tree} :
    p.parseTokens input = .ok result ↔ p.Ends (parseAt [] input 0) (.ok result) :=
  parse_eq_ok

theorem Parser.parseTokens_eq_error {p : Parser} {input : List Token} {f : Failure}
    (ends : p.Ends (parseAt [] input 0) (.error f)) : p.parseTokens input = .error f := by
  have run := run_eq_some.mpr ends
  rw [parseAt] at run
  rw [parseTokens, parse, run]
  rfl

/-- A parser without conflicts accepts exactly what its grammar derives, with a derivation tree
of the input.  It never fails, and it ends if every nonterminal derives something. -/
theorem parse_correct {g : Grammar} {p : Parser} {input : List Token} (avoids : g.AvoidsReserved)
    (tableEq : g.table = .ok p.table) (free : p.table.conflicts = [])
    (plain : ∀ t ∈ input, t.symbol ≠ endSymbol) (inOrder : InOrder input) :
    ((∃ tree, p.parseTokens input = .ok (.ok tree)) ↔ g.Derivable (input.map Token.symbol)) ∧
      (∀ tree, p.parseTokens input = .ok (.ok tree) →
        tree.IsDerivation g ∧ tree.symbol = g.start ∧ tree.tokens = input) ∧
      (g.Productive → ∃ result, p.parseTokens input = .ok result) ∧
      ∀ f, p.parseTokens input = .error f → p.run ⟨[], input.map .token, 0⟩ = none := by
  rcases exists_follows tableEq free with ⟨C, follows⟩
  have parsing : Parsing C [] input := .start inOrder plain
  have sound : ∀ tree, p.parseTokens input = .ok (.ok tree) →
      tree.IsDerivation g ∧ tree.symbol = g.start ∧ tree.tokens = input := by
    intro tree accepted
    exact parsing.accepted avoids follows (Parser.parseTokens_eq_ok.mp accepted)
  refine ⟨⟨?_, ?_⟩, sound, ?_, ?_⟩
  · rintro ⟨tree, accepted⟩
    exact Grammar.derivable_iff_tree.mpr ⟨tree, sound tree accepted⟩
  · intro derivable
    rcases Grammar.derivable_iff_tree.mp derivable with ⟨tree, derivation, root, rfl⟩
    rcases accepts_derivation avoids follows derivation root parsing with ⟨built, ends⟩
    exact ⟨built, Parser.parseTokens_eq_ok.mpr ends⟩
  · intro productive
    rcases parsing.terminates avoids productive follows 0 with ⟨result, ends⟩
    exact ⟨result, Parser.parseTokens_eq_ok.mpr ends⟩
  · intro f failed
    cases run : p.run ⟨[], input.map .token, 0⟩ with
    | none => rfl
    | some r =>
      rcases parsing.outcome avoids follows (Parser.run_eq_some.mp run) rfl with ⟨result, rfl, _⟩
      rw [Parser.parseTokens, Parser.parse, run] at failed
      cases failed

/-! ## Grammars of a single word -/

section Single

variable {g : Grammar} {rules : List Production} {symbol : String}

/-- What a symbol comes to if the productions are applied in turn. -/
def expansion : List Production → String → List String
  | [], symbol => [symbol]
  | r :: rest, symbol =>
    if symbol = r.lhs then r.rhs.flatMap (expansion rest) else expansion rest symbol

theorem expansion_of_unlisted (unlisted : ∀ r ∈ rules, symbol ≠ r.lhs) :
    expansion rules symbol = [symbol] := by
  induction rules with
  | nil => rfl
  | cons r rest ih =>
    have ⟨other, others⟩ := forall_mem_cons.mp unlisted
    rw [expansion, if_neg other, ih others]

theorem derives_expansion (listed : ∀ r ∈ rules, r ∈ g.rules) (symbol : String) :
    g.contextFree.Derives [g.atom symbol] ((expansion rules symbol).map g.atom) := by
  induction rules generalizing symbol with
  | nil => exact .refl _
  | cons r rest ih =>
    have ⟨rule, others⟩ := forall_mem_cons.mp listed
    rw [expansion]
    split
    · next isLeft =>
      rw [isLeft, map_flatMap]
      exact (Grammar.produces_rhs rule).trans_derives
        (Grammar.derives_flatMap fun symbol _ => ih others symbol)
    · exact ih others symbol

theorem derives_word (terminals : ∀ t ∈ expansion g.rules symbol, t ∉ g.nonterminals) :
    g.contextFree.Derives [g.atom symbol] ((expansion g.rules symbol).map .terminal) := by
  have derives := derives_expansion (g := g) (fun _ listed => listed) symbol
  rwa [map_congr_left fun t member => Grammar.atom_terminal (terminals t member)] at derives

theorem Grammar.productive_of_expansion
    (terminals : ∀ r ∈ g.rules, ∀ t ∈ expansion g.rules r.lhs, t ∉ g.nonterminals) :
    g.Productive :=
  fun r rule => ⟨_, derives_word (terminals r rule)⟩

theorem Tree.IsDerivation.word_eq {meaning : String → List String}
    (terminals : ∀ symbol, symbol ∉ g.nonterminals → meaning symbol = [symbol])
    (rules : ∀ r ∈ g.rules, meaning r.lhs = r.rhs.flatMap meaning) {tree : Tree}
    (derivation : tree.IsDerivation g) : tree.word = meaning tree.symbol := by
  induction derivation with
  | leaf terminal => rw [Tree.word_leaf, Tree.symbol, terminals _ terminal]
  | @node r _ _ rule symbols _ ih =>
    rw [Tree.word_node, Tree.symbol, rules r rule, ← symbols, flatMap_map]
    exact flatMap_congr ih

/-- A grammar with a single word. -/
structure Grammar.HasSoleWord (g : Grammar) (word : List String) : Prop where
  derivable : g.Derivable word
  eq_of_derivable : ∀ other, g.Derivable other → other = word

theorem Grammar.hasSoleWord_of_expansion
    (terminals : ∀ t ∈ expansion g.rules g.start, t ∉ g.nonterminals)
    (rules : ∀ r ∈ g.rules, expansion g.rules r.lhs = r.rhs.flatMap (expansion g.rules)) :
    g.HasSoleWord (expansion g.rules g.start) := by
  refine ⟨derives_word terminals, fun word derivable => ?_⟩
  let input : List Token := word.map fun symbol => ⟨symbol, "", none⟩
  have symbols : input.map Token.symbol = word := by
    rw [map_map]
    exact map_id _
  rw [← symbols] at derivable ⊢
  rcases Grammar.derivable_iff_tree.mp derivable with ⟨_, derivation, root, leaves⟩
  rw [← leaves, ← root]
  refine derivation.word_eq (fun symbol terminal => expansion_of_unlisted ?_) rules
  rintro r rule rfl
  exact terminal (lhs_mem_nonterminals (mem_productions_of_rule rule))

end Single

/-! ## Tokens in order -/

namespace Pair

def rule : Production := ⟨"S", ["a", "b"]⟩

/-- The grammar of the sequence `a b`. -/
def grammar : Grammar := ⟨"S", [rule]⟩

/-- The sets of items of its four states. -/
def cover : Cover where
  firsts := [("S", [some "a"]), (seedSymbol, [some "a"])]
  states :=
    [[⟨grammar.seed, 0, endSymbol⟩, ⟨rule, 0, endSymbol⟩], [⟨grammar.seed, 1, endSymbol⟩],
      [⟨rule, 1, endSymbol⟩], [⟨rule, 2, endSymbol⟩]]

theorem covers : cover.Covers grammar :=
  ⟨by decide, by decide, by decide, by decide, by decide⟩

theorem avoidsReserved : grammar.AvoidsReserved :=
  Grammar.avoidsReserved_of_rules (by decide) (by decide)

def first (line : Nat) : Token := ⟨"a", "a", some (.onLine line 1 2)⟩

def second (line : Nat) : Token := ⟨"b", "b", some (.onLine line 2 3)⟩

theorem hasSoleWord : grammar.HasSoleWord ["a", "b"] :=
  Grammar.hasSoleWord_of_expansion (by decide) (by decide)

theorem productive : grammar.Productive :=
  Grammar.productive_of_expansion (by decide)

/-- If `b` stands on a line before that of `a`, a node for them cannot be located. -/
theorem fails {g : Grammar} {C : Collection g} {p : Parser} (follows : p.Follows C) {lhs : String}
    {rest : List Token} (begun : C.items 0 ⟨⟨lhs, ["a", "b"]⟩, 0, upcoming rest⟩)
    (proper : (⟨lhs, ["a", "b"]⟩ : Production) ≠ g.seed)
    (terminals : "a" ∉ g.nonterminals ∧ "b" ∉ g.nonterminals) :
    p.parseTokens (first 2 :: second 1 :: rest) = .error .invariant := by
  rcases C.exists_advance begun rfl with ⟨n, edge, half⟩
  rcases C.exists_advance half rfl with ⟨m, next, complete⟩
  let stack : List Frame := [(m, .leaf (second 1)), (n, .leaf (first 2))]
  have shiftFirst : p.step (parseAt [] (first 2 :: second 1 :: rest) 0) =
      .next (parseAt [(n, .leaf (first 2))] (second 1 :: rest) 1) :=
    step_shift follows (.shift edge terminals.1)
  have shiftSecond : p.step (parseAt [(n, .leaf (first 2))] (second 1 :: rest) 1) =
      .next (parseAt stack rest 2) :=
    step_shift follows (.shift next terminals.2)
  have action : p.action? (parseAt stack rest 2) = some (.reduce ⟨lhs, ["a", "b"]⟩) :=
    follows.action?_eq_some.mpr (.reduce complete proper)
  have reduce : p.step (parseAt stack rest 2) = .failed .invariant := by
    rw [Parser.step, action]
    rfl
  exact Parser.parseTokens_eq_error (.next shiftFirst (.next shiftSecond (.failed reduce)))

end Pair

/-- The sequence `a b` on one line is accepted. -/
theorem parse_correct_pair :
    ∃ p : Parser, Pair.grammar.table = .ok p.table ∧ p.table.conflicts = [] ∧
      ∃ tree, p.parseTokens [Pair.first 1, Pair.second 1] = .ok (.ok tree) ∧
        tree.IsDerivation Pair.grammar ∧ tree.symbol = "S" ∧
        tree.tokens = [Pair.first 1, Pair.second 1] := by
  rcases Pair.covers.exists_table (by decide) with ⟨table, tableEq, free⟩
  have plain : ∀ t ∈ [Pair.first 1, Pair.second 1], t.symbol ≠ endSymbol := by decide
  have correct := parse_correct (p := ⟨table, {}⟩) Pair.avoidsReserved tableEq free plain (by decide)
  rcases correct.1.mpr Pair.hasSoleWord.derivable with ⟨tree, accepted⟩
  exact ⟨⟨table, {}⟩, tableEq, free, tree, accepted, correct.2.1 tree accepted⟩

/-- A word whose tokens are out of order is not accepted. -/
theorem parse_backwards :
    ∃ p : Parser, Pair.grammar.table = .ok p.table ∧ p.table.conflicts = [] ∧
      Pair.grammar.Derivable ([Pair.first 2, Pair.second 1].map Token.symbol) ∧
      p.parseTokens [Pair.first 2, Pair.second 1] = .error .invariant := by
  rcases Pair.covers.exists_table (by decide) with ⟨table, tableEq, free⟩
  let p : Parser := ⟨table, {}⟩
  rcases exists_follows (p := p) tableEq free with ⟨C, follows⟩
  refine ⟨p, tableEq, free, Pair.hasSoleWord.derivable, ?_⟩
  have begun : C.items 0 ⟨Pair.rule, 0, endSymbol⟩ :=
    .expand (.kernel ((C.start _).mpr rfl)) rfl mem_cons_self (.terminal (by decide) (by decide))
  exact Pair.fails follows begun (by decide) (by decide)

/-! ## Nonterminals that derive nothing -/

namespace Endless

/-- The production that is begun again and again. -/
def again : Production := ⟨"S", ["E", "S"]⟩

/-- The production that nothing completes. -/
def stuck : Production := ⟨"S", ["B", "U"]⟩

def nothing : Production := ⟨"E", []⟩

def token : Production := ⟨"B", ["t"]⟩

/-- The production of a nonterminal that derives nothing. -/
def barren : Production := ⟨"U", ["U", "u"]⟩

/-- A grammar without any word, in which `t` can begin what `S` derives. -/
def grammar : Grammar := ⟨"S", [again, stuck, nothing, token, barren]⟩

def cover : Cover where
  firsts := [("S", [some "t"]), ("E", [none]), ("B", [some "t"]), ("U", []),
    (seedSymbol, [some "t"])]
  states :=
    [[⟨grammar.seed, 0, endSymbol⟩, ⟨again, 0, endSymbol⟩, ⟨stuck, 0, endSymbol⟩, ⟨nothing, 0, "t"⟩],
      [⟨grammar.seed, 1, endSymbol⟩],
      [⟨again, 1, endSymbol⟩, ⟨again, 0, endSymbol⟩, ⟨stuck, 0, endSymbol⟩, ⟨nothing, 0, "t"⟩],
      [⟨again, 2, endSymbol⟩],
      [⟨stuck, 1, endSymbol⟩, ⟨barren, 0, endSymbol⟩, ⟨barren, 0, "u"⟩],
      [⟨stuck, 2, endSymbol⟩, ⟨barren, 1, endSymbol⟩, ⟨barren, 1, "u"⟩],
      [⟨barren, 2, endSymbol⟩, ⟨barren, 2, "u"⟩]]

theorem covers : cover.Covers grammar :=
  ⟨by decide, by decide, by decide, by decide, by decide⟩

theorem avoidsReserved : grammar.AvoidsReserved :=
  Grammar.avoidsReserved_of_rules (by decide) (by decide)

/-- The token that is never read. -/
def input : Token := ⟨"t", "t", none⟩

variable {C : Collection grammar} {p : Parser}

/-- Where the production is begun, it is begun again behind one more empty tree. -/
theorem turns (follows : p.Follows C) {stack : List Frame}
    (begun : C.items (top stack) ⟨again, 0, endSymbol⟩) (index : Nat) :
    ∃ n, C.items n ⟨again, 0, endSymbol⟩ ∧
      p.step (parseAt stack [input] index) =
        .next (parseAt ((n, .node nothing [] none) :: stack) [input] index) := by
  have ends : endSymbol ∉ grammar.nonterminals := by decide
  have first : Begins grammar ["S", endSymbol] (some "t") := by
    have listed : stuck ∈ grammar.productions ∧ token ∈ grammar.productions := by decide
    exact .expand (p := stuck) listed.1 (.expand (p := token) listed.2
      (.terminal (by decide) (by decide)))
  have empty : C.items (top stack) ⟨nothing, 0, "t"⟩ :=
    .expand begun rfl (by decide) first
  rcases C.exists_advance begun rfl with ⟨n, edge, behind⟩
  refine ⟨n, .expand behind rfl (by decide) (.terminal ends (by decide)), ?_⟩
  have action : p.action? (parseAt stack [input] index) = some (.reduce nothing) :=
    follows.action?_eq_some.mpr (.reduce empty (by decide))
  have goto : (p.row (top stack)).gotos[nothing.lhs]? = some n :=
    (follows.goto _ _ _).mpr ⟨edge, by decide⟩
  have length : ([] : List Frame).length = nothing.rhs.length := rfl
  rw [Parser.step, action]
  exact reduce_eq length rfl goto

theorem not_ends (follows : p.Follows C) {c : Configuration} {stack : List Frame} {index : Nat}
    {r : Checked (Except ParseError Tree)} (ends : p.Ends c r)
    (position : c = parseAt stack [input] index)
    (begun : C.items (top stack) ⟨again, 0, endSymbol⟩) : False := by
  induction ends generalizing stack index with
  | accepted step | rejected step | failed step =>
    subst position
    rcases turns follows begun index with ⟨n, _, other⟩
    cases step.symm.trans other
  | next step _ ih =>
    subst position
    rcases turns follows begun index with ⟨n, further, other⟩
    cases step.symm.trans other
    exact ih rfl further

end Endless

/-- Without the condition on nonterminals, a parse may go on forever. -/
theorem parse_endless :
    ∃ p : Parser, Endless.grammar.AvoidsReserved ∧ Endless.grammar.table = .ok p.table ∧
      p.table.conflicts = [] ∧ p.run ⟨[], [.token Endless.input], 0⟩ = none := by
  rcases Endless.covers.exists_table (by decide) with ⟨table, tableEq, free⟩
  let p : Parser := ⟨table, {}⟩
  rcases exists_follows (p := p) tableEq free with ⟨C, follows⟩
  refine ⟨p, Endless.avoidsReserved, tableEq, free, ?_⟩
  have begun : C.items 0 ⟨Endless.again, 0, endSymbol⟩ :=
    .expand (.kernel ((C.start _).mpr rfl)) rfl (by decide) (.terminal (by decide) (by decide))
  cases run : p.run ⟨[], [.token Endless.input], 0⟩ with
  | none => rfl
  | some r => exact (Endless.not_ends follows (Parser.run_eq_some.mp run) rfl begun).elim

end BinaryLayout.LR
