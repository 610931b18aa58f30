import BinaryLayout.LR.Parser
import BinaryLayout.Proofs.LR.Collection

/-!
# The actions of a table without conflicts

The items and edges of a state ask for actions (`Collection.Asks`).  A table without conflicts
gives each state exactly the actions that the state asks for, and sends it exactly along its
edges: `exists_follows`.  All that is proved about parsing rests on this alone.
-/

namespace BinaryLayout.LR

open List

namespace Collection

variable {g : Grammar}

def items (C : Collection g) (q : Nat) : Item → Prop :=
  Closure g (C.kernel q)

theorem exists_advance (C : Collection g) {q : Nat} {i : Item} {symbol : String}
    (inside : C.items q i) (next : i.next? = some symbol) :
    ∃ n, C.edge q symbol n ∧ C.items n i.advance := by
  rcases C.progress q i symbol inside next with ⟨n, edge⟩
  exact ⟨n, edge, .kernel ((C.target _ _ _ edge _).mpr ⟨i, inside, next, rfl⟩)⟩

/-- What a state asks for when a terminal comes next. -/
inductive Asks (C : Collection g) (q : Nat) (t : String) : Action → Prop
  | shift {n : Nat} (edge : C.edge q t n) (terminal : t ∉ g.nonterminals) : Asks C q t (.shift n)
  | reduce {p : Production} (item : C.items q ⟨p, p.rhs.length, t⟩) (proper : p ≠ g.seed) :
      Asks C q t (.reduce p)
  | accept (item : C.items q ⟨g.seed, 1, endSymbol⟩) (ends : t = endSymbol) : Asks C q t .accept

end Collection

/-- The parser does what the states ask for, and goes where their edges lead. -/
structure Parser.Follows {g : Grammar} (p : Parser) (C : Collection g) : Prop where
  action : ∀ q t a, (p.row q).actions[t]? = some a ↔ C.Asks q t a
  goto : ∀ q symbol n,
    (p.row q).gotos[symbol]? = some n ↔ C.edge q symbol n ∧ symbol ∈ g.nonterminals

theorem getElem?_ofList_iff {α β : Type} [BEq α] [Hashable α] [LawfulBEq α] [LawfulHashable α]
    {list : List (α × β)} (distinct : (list.map (·.1)).Nodup) {a : α} {b : β} :
    (Std.HashMap.ofList list)[a]? = some b ↔ (a, b) ∈ list := by
  have pairwise : list.Pairwise fun x y => (x.1 == y.1) = false := by
    rw [List.Nodup, pairwise_map] at distinct
    exact distinct.imp fun different => by simpa using different
  constructor
  · intro found
    by_cases listed : a ∈ list.map (·.1)
    · rcases mem_map.mp listed with ⟨⟨key, _⟩, member, rfl⟩
      have other := Std.HashMap.getElem?_ofList_of_mem (beq_self_eq_true key) pairwise member
      obtain rfl := Option.some.inj (found.symm.trans other)
      exact member
    · have missing : (Std.HashMap.ofList list)[a]? = none :=
        Std.HashMap.getElem?_ofList_of_contains_eq_false (by simpa using listed)
      cases found.symm.trans missing
  · exact Std.HashMap.getElem?_ofList_of_mem (beq_self_eq_true a) pairwise

namespace Blueprint

variable {proposals : List (String × Action)} {actions : Std.HashMap String Action} {b : Blueprint}
  {t : String} {a : Action} {state : State} {q : Nat} {states : Array State}

/-! ## Rows -/

theorem settle_spec {conflicts : List String} (free : (settle proposals actions conflicts).2 = []) :
    conflicts = [] ∧ ∀ t a, (settle proposals actions conflicts).1[t]? = some a ↔
      actions[t]? = some a ∨ (t, a) ∈ proposals := by
  induction proposals generalizing actions conflicts with
  | nil => exact ⟨free, fun t a => by simp [settle]⟩
  | cons proposal rest ih =>
    rcases proposal with ⟨terminal, action⟩
    rw [settle] at free ⊢
    cases before : actions[terminal]? with
    | none =>
      simp only [before] at free ⊢
      rcases ih free with ⟨empty, entries⟩
      refine ⟨empty, fun t a => ?_⟩
      rw [entries, Std.HashMap.getElem?_insert, mem_cons, Prod.mk.injEq]
      by_cases same : terminal = t
      · subst same
        simp only [beq_self_eq_true, if_true, before, true_and, reduceCtorEq, false_or,
          Option.some.injEq]
        rw [eq_comm]
      · simp only [beq_iff_eq, same, Ne.symm same, if_false, false_and, false_or]
    | some settled =>
      simp only [before] at free ⊢
      by_cases agree : settled = action
      · simp only [agree, if_true] at free ⊢
        rcases ih free with ⟨empty, entries⟩
        refine ⟨empty, fun t a => ?_⟩
        rw [entries, mem_cons, Prod.mk.injEq]
        constructor
        · rintro (known | listed)
          · exact .inl known
          · exact .inr (.inr listed)
        · rintro (known | ⟨rfl, rfl⟩ | listed)
          · exact .inl known
          · exact .inl (by rw [before, agree])
          · exact .inr listed
      · simp only [agree, if_false] at free
        cases (ih free).1

/-- If no terminal has two actions, there is no conflict. -/
theorem settle_free (functional : ∀ t a a', (t, a) ∈ proposals → (t, a') ∈ proposals → a = a')
    (agree : ∀ t a a', actions[t]? = some a → (t, a') ∈ proposals → a = a') :
    (settle proposals actions []).2 = [] := by
  induction proposals generalizing actions with
  | nil => rfl
  | cons proposal rest ih =>
    rcases proposal with ⟨_, _⟩
    have fewer : ∀ t a a', (t, a) ∈ rest → (t, a') ∈ rest → a = a' := fun t a a' first second =>
      functional t a a' (mem_cons_of_mem _ first) (mem_cons_of_mem _ second)
    have agreeRest : ∀ t a a', actions[t]? = some a → (t, a') ∈ rest → a = a' :=
      fun t a a' known listed => agree t a a' known (mem_cons_of_mem _ listed)
    rw [settle]
    split
    · refine ih fewer fun t a a' known listed => ?_
      rw [Std.HashMap.getElem?_insert] at known
      split at known
      · next same =>
          obtain rfl := eq_of_beq same
          obtain rfl := Option.some.inj known
          exact functional _ _ _ mem_cons_self (mem_cons_of_mem _ listed)
      · exact agreeRest t a a' known listed
    · next settled known =>
        rw [if_pos (agree _ _ _ known mem_cons_self)]
        exact ih fewer agreeRest

variable {g : Grammar}

/-- An item that has been read to its end asks for its completion. -/
def Completes (g : Grammar) (i : Item) (t : String) (a : Action) : Prop :=
  i.production.rhs.length ≤ i.dot ∧
    (i.production ≠ g.seed ∧ t = i.lookahead ∧ a = .reduce i.production ∨
      i.production = g.seed ∧ i.lookahead = endSymbol ∧ t = endSymbol ∧ a = .accept)

theorem completion?_eq_some {c : Cursor} :
    b.completion? c = some (t, a) ↔ ∃ i, b.item? c = some i ∧ Completes b.grammar i t a := by
  simp only [Completes]
  rw [completion?, item?]
  cases b.rules[c.rule]? with
  | none => simp
  | some p =>
    simp only [Option.map_some, Option.some.injEq, exists_eq_left']
    by_cases unread : c.dot < p.rhs.length
    · rw [if_pos unread]
      simp [Nat.not_le.mpr unread]
    · have read := Nat.not_lt.mp unread
      rw [if_neg unread]
      by_cases seed : p = b.grammar.seed
      · rw [if_pos seed]
        split <;> grind
      · rw [if_neg seed]
        grind

theorem mem_proposals :
    (t, a) ∈ (ofGrammar g).proposals state ↔
      (∃ i, (ofGrammar g).Holds state.items i ∧ Completes g i t a) ∨
        ∃ n, (t, n) ∈ state.edges ∧ t ∉ g.nonterminals ∧ a = .shift n := by
  have keys : (ofGrammar g).firsts.contains t = true ↔ t ∈ g.nonterminals :=
    (firsts_exact g).1.keys t
  rw [proposals, mem_append, mem_filterMap, mem_map]
  refine or_congr ?_ ?_
  · constructor
    · rintro ⟨c, listed, completion⟩
      rcases completion?_eq_some.mp completion with ⟨i, itemEq, completes⟩
      exact ⟨i, ⟨c, listed, itemEq⟩, completes⟩
    · rintro ⟨i, ⟨c, listed, itemEq⟩, completes⟩
      exact ⟨c, listed, completion?_eq_some.mpr ⟨i, itemEq, completes⟩⟩
  · constructor
    · rintro ⟨⟨_, n⟩, listed, equal⟩
      cases equal
      have ⟨member, unlisted⟩ := mem_filter.mp listed
      refine ⟨n, member, fun nonterminal => ?_, rfl⟩
      dsimp only at unlisted
      rw [keys.mpr nonterminal] at unlisted
      cases unlisted
    · rintro ⟨n, member, terminal, rfl⟩
      refine ⟨(t, n), mem_filter.mpr ⟨member, ?_⟩, rfl⟩
      dsimp only
      rw [Bool.eq_false_of_not_eq_true fun listed => terminal (keys.mp listed)]
      rfl

theorem asks_iff {C : Collection g} :
    C.Asks q t a ↔ (∃ i, C.items q i ∧ Completes g i t a) ∨
      ∃ n, C.edge q t n ∧ t ∉ g.nonterminals ∧ a = .shift n := by
  constructor
  · intro asks
    cases asks with
    | shift edge terminal => exact .inr ⟨_, edge, terminal, rfl⟩
    | reduce item proper => exact .inl ⟨_, item, Nat.le_refl _, .inl ⟨proper, rfl, rfl⟩⟩
    | accept item ends => exact .inl ⟨_, item, Nat.le_refl _, .inr ⟨rfl, rfl, ends, rfl⟩⟩
  · rintro (⟨i, inside, read, completes⟩ | ⟨n, edge, terminal, rfl⟩)
    · have isOf := inside.isOf (C.isOf q)
      have dot : i.dot = i.production.rhs.length := Nat.le_antisymm isOf.2.1 read
      obtain ⟨production, _, _⟩ := i
      dsimp only at dot completes
      rcases completes with ⟨proper, rfl, rfl⟩ | ⟨rfl, rfl, rfl, rfl⟩
      · subst dot
        exact .reduce inside proper
      · subst dot
        exact .accept inside rfl
    · exact .shift edge terminal

theorem mem_gotos {symbol : String} {n : Nat} (distinct : (state.edges.map (·.1)).Nodup) :
    ((ofGrammar g).row state).1.gotos[symbol]? = some n ↔
      (symbol, n) ∈ state.edges ∧ symbol ∈ g.nonterminals := by
  have keys : (ofGrammar g).firsts.contains symbol = true ↔ symbol ∈ g.nonterminals :=
    (firsts_exact g).1.keys symbol
  rw [row, getElem?_ofList_iff (distinct.sublist (filter_sublist.map _)), mem_filter]
  exact and_congr_right fun _ => keys

theorem row_actions (free : (b.row state).2 = []) :
    (b.row state).1.actions[t]? = some a ↔ (t, a) ∈ b.proposals state := by
  have none : (settle (b.proposals state) ∅ []).2 = [] := by
    refine eq_nil_iff_forall_not_mem.mpr fun terminal listed => ?_
    have emptied : (settle (b.proposals state) ∅ []).2.eraseDups = [] := free
    have member := mem_eraseDups.mpr listed
    rw [emptied] at member
    exact not_mem_nil member
  rw [row, (settle_spec none).2, Std.HashMap.getElem?_empty]
  simp only [reduceCtorEq, false_or]

theorem row_free (free : (b.table states).conflicts = []) (found : states[q]? = some state) :
    (b.row state).2 = [] := by
  refine eq_nil_iff_forall_not_mem.mpr fun terminal listed => ?_
  have conflict : (q, terminal) ∈ (b.table states).conflicts := by
    refine mem_flatMap.mpr ⟨(b.row state, q), ?_, mem_map_of_mem listed⟩
    rw [mem_zipIdx_iff_getElem?, Array.getElem?_toList, Array.getElem?_map, found]
    rfl
  rw [free] at conflict
  exact not_mem_nil conflict

theorem parser_row {p : Parser} (tableEq : p.table = b.table states) :
    p.row q = (states[q]?.map fun state => (b.row state).1).getD default := by
  rw [Parser.row, tableEq, table, Array.getD_eq_getD_getElem?, Array.getElem?_map,
    Array.getElem?_map, Option.map_map]
  rfl

end Blueprint

open Blueprint in
theorem asks_iff_proposed {g : Grammar} (terminal : endSymbol ∉ g.nonterminals) {q : Nat}
    {state : State} (found : (ofGrammar g).states[q]? = some state) {t : String} {a : Action} :
    (collection g terminal).Asks q t a ↔ (t, a) ∈ (ofGrammar g).proposals state := by
  rw [asks_iff, mem_proposals]
  exact or_congr (exists_congr fun i => and_congr_left fun _ => closure_kernelItem terminal found)
    (exists_congr fun n => and_congr_left fun _ => edge_iff found)

theorem Grammar.table_eq_ok {g : Grammar} {table : Table} (tableEq : g.table = .ok table) :
    endSymbol ∉ g.nonterminals ∧
      table = (Blueprint.ofGrammar g).table (Blueprint.ofGrammar g).states := by
  rw [Grammar.table] at tableEq
  split at tableEq
  · cases tableEq
  · next unlisted =>
      refine ⟨?_, (Except.ok.inj tableEq).symm⟩
      simpa [nonterminalSet, nonterminals] using unlisted

theorem Grammar.table_of_terminal {g : Grammar} (terminal : endSymbol ∉ g.nonterminals) :
    g.table = .ok ((Blueprint.ofGrammar g).table (Blueprint.ofGrammar g).states) := by
  rw [Grammar.table, if_neg]
  simpa [nonterminalSet, nonterminals] using terminal

section Follows

open Blueprint

variable {g : Grammar} {p : Parser}

theorem row_of_no_state {q : Nat} (tableEq : p.table = (ofGrammar g).table (ofGrammar g).states)
    (missing : (ofGrammar g).states[q]? = none) : p.row q = ⟨∅, ∅⟩ := by
  rw [parser_row tableEq, missing]
  rfl

/-- A table without conflicts belongs to a parser that follows the states of its grammar. -/
theorem exists_follows (tableEq : g.table = .ok p.table) (free : p.table.conflicts = []) :
    ∃ C : Collection g, p.Follows C := by
  rcases Grammar.table_eq_ok tableEq with ⟨terminal, equal⟩
  rw [equal] at free
  refine ⟨collection g terminal, fun q t a => ?_, fun q symbol n => ?_⟩
  · cases found : (ofGrammar g).states[q]? with
    | none =>
      rw [row_of_no_state equal found, Std.HashMap.getElem?_empty, asks_iff]
      refine iff_of_false (fun entry => by cases entry) ?_
      rintro (⟨i, inside, _⟩ | ⟨n, ⟨state, other, _⟩, _⟩)
      · rcases inside.exists_kernel with ⟨j, state, other, _⟩
        cases found.symm.trans other
      · cases found.symm.trans other
    | some =>
      rw [parser_row equal, found, Option.map_some, Option.getD_some,
        row_actions (row_free free found), asks_iff_proposed terminal found]
  · cases found : (ofGrammar g).states[q]? with
    | none =>
      rw [row_of_no_state equal found, Std.HashMap.getElem?_empty]
      refine iff_of_false (fun entry => by cases entry) ?_
      rintro ⟨⟨state, other, _⟩, _⟩
      cases found.symm.trans other
    | some =>
      rw [parser_row equal, found, Option.map_some, Option.getD_some,
        mem_gotos (distinct_edges terminal found)]
      exact and_congr_left fun _ => (edge_iff found).symm

/-- If no state asks for two actions before a terminal, the table has no conflicts. -/
theorem conflicts_eq_nil (terminal : endSymbol ∉ g.nonterminals)
    (functional : ∀ q t a a', (collection g terminal).Asks q t a →
      (collection g terminal).Asks q t a' → a = a') :
    ((ofGrammar g).table (ofGrammar g).states).conflicts = [] := by
  refine eq_nil_iff_forall_not_mem.mpr fun conflict listed => ?_
  rcases mem_flatMap.mp listed with ⟨⟨row, q⟩, placed, inRow⟩
  rw [mem_zipIdx_iff_getElem?, Array.getElem?_toList, Array.getElem?_map] at placed
  rcases Option.map_eq_some_iff.mp placed with ⟨state, found, rfl⟩
  have free : (settle ((ofGrammar g).proposals state) ∅ []).2 = [] := by
    refine settle_free (fun t a a' first second => ?_) fun t a a' known _ => ?_
    · exact functional q t a a' ((asks_iff_proposed terminal found).mpr first)
        ((asks_iff_proposed terminal found).mpr second)
    · rw [Std.HashMap.getElem?_empty] at known
      cases known
  have none : ((ofGrammar g).row state).2 = [] := by
    have erased := congrArg List.eraseDups free
    exact erased
  have inMap : conflict ∈ ((ofGrammar g).row state).2.map fun t => (q, t) := inRow
  rw [none] at inMap
  exact not_mem_nil inMap

end Follows

end BinaryLayout.LR
