import BinaryLayout.Proofs.LR.Span
import BinaryLayout.Proofs.LR.Stack

/-!
# What a parse does, step by step

`Parsing` is the invariant of a parse: the stack follows the automaton, its trees are derivation
trees, and the known locations of the input are in order.  A step from there shifts a token,
reduces trees to one, accepts a derivation tree of the whole input, or rejects; it never fails
(`Parsing.step_cases`).  Hence an accepted input has a derivation (`Parsing.accepted`).
-/

namespace BinaryLayout.LR

open List

/-! ## Runs -/

namespace Parser

variable {p : Parser} {c c' : Configuration} {r : Checked (Except ParseError Tree)}

/-- The parse from a configuration ends with a result. -/
inductive Ends (p : Parser) : Configuration → Checked (Except ParseError Tree) → Prop
  | accepted {c : Configuration} {tree : Tree} (step : p.step c = .accepted tree) :
      Ends p c (.ok (.ok tree))
  | rejected {c : Configuration} {e : ParseError} (step : p.step c = .rejected e) :
      Ends p c (.ok (.error e))
  | failed {c : Configuration} {f : Failure} (step : p.step c = .failed f) : Ends p c (.error f)
  | next {c c' : Configuration} {r : Checked (Except ParseError Tree)}
      (step : p.step c = .next c') (ends : Ends p c' r) : Ends p c r

theorem run_eq_some : p.run c = some r ↔ p.Ends c r := by
  constructor
  · refine run.partial_correctness p (p.Ends) ?_ c r
    intro run ih c r result
    split at result
    · next step => exact .next step (ih _ _ result)
    · next step =>
        cases result
        exact .accepted step
    · next step =>
        cases result
        exact .rejected step
    · next step =>
        cases result
        exact .failed step
  · intro ends
    induction ends with
    | accepted step | rejected step | failed step => rw [run, step]
    | next step _ ih =>
      rw [run, step]
      exact ih

theorem parse_eq_ok {input : List Lexeme} {result : Except ParseError Tree} :
    p.parse input = .ok result ↔ p.Ends ⟨[], input, 0⟩ (.ok result) := by
  rw [← run_eq_some, parse]
  cases p.run ⟨[], input, 0⟩ with
  | none | some => simp

theorem step_of_no_action (nothing : p.action? c = none) : p.step c = .rejected (p.reject c) := by
  rw [step, nothing]

theorem step_eq_rejected {e : ParseError} (step : p.step c = .rejected e) :
    p.action? c = none ∧ e = p.reject c := by
  cases action : p.action? c with
  | none =>
    cases step.symm.trans (step_of_no_action action)
    exact ⟨rfl, rfl⟩
  | some a =>
    rw [Parser.step, action] at step
    cases a with
    | reduce =>
      simp only [Parser.reduce] at step
      split at step
      · cases step
      · split at step <;> cases step
    | accept | shift =>
      dsimp only at step
      split at step <;> cases step

/-- One configuration leads to another in some steps. -/
def Reaches (p : Parser) : Configuration → Configuration → Prop :=
  Relation.ReflTransGen fun c c' => p.step c = .next c'

theorem Reaches.ends (reaches : p.Reaches c c') (ends : p.Ends c' r) : p.Ends c r := by
  induction reaches using Relation.ReflTransGen.head_induction_on with
  | refl => exact ends
  | head step _ ih => exact .next step ih

end Parser

/-- A parse with a stack before some tokens. -/
def parseAt (stack : List Frame) (rest : List Token) (index : Nat) : Configuration :=
  ⟨stack, rest.map .token, index⟩

/-- The terminal that comes next. -/
def upcoming : List Token → String
  | [] => endSymbol
  | t :: _ => t.symbol

section Steps

variable {g : Grammar} {p : Parser} {C : Collection g}

variable {n : Nat} {above below : List Frame} {r : Production}

/-- The invariant of a parse. -/
structure Parsing (C : Collection g) (stack : List Frame) (rest : List Token) : Prop where
  stacked : Stacked C stack
  derivations : ∀ frame ∈ stack, frame.2.IsDerivation g
  spans : ∀ frame ∈ stack, Spans frame.2
  inOrder : InOrder (readTokens stack ++ rest)
  plain : ∀ t ∈ rest, t.symbol ≠ endSymbol

theorem Parsing.start {input : List Token} (inOrder : InOrder input)
    (plain : ∀ t ∈ input, t.symbol ≠ endSymbol) : Parsing C [] input :=
  ⟨.nil, fun _ member => (not_mem_nil member).elim,
    fun _ member => (not_mem_nil member).elim, inOrder, plain⟩

variable {stack : List Frame} {rest : List Token} {index : Nat}

theorem Parser.Follows.action?_eq_some (follows : p.Follows C) {a : Action} :
    p.action? (parseAt stack rest index) = some a ↔ C.Asks (top stack) (upcoming rest) a := by
  have terminal : (parseAt stack rest index).terminal? = some (upcoming rest) := by
    cases rest <;> rfl
  rw [Parser.action?, terminal, Option.bind_some, state_eq_top, follows.action]
  rfl

theorem Parsing.shift {t : Token} (parsing : Parsing C stack (t :: rest))
    (asks : C.Asks (top stack) t.symbol (.shift n)) :
    Parsing C ((n, .leaf t) :: stack) rest := by
  cases asks with
  | shift edge terminal =>
    refine ⟨.cons parsing.stacked edge, ?_, ?_, ?_, ?_⟩
    · exact forall_mem_cons.mpr ⟨.leaf terminal, parsing.derivations⟩
    · exact forall_mem_cons.mpr ⟨spans_leaf t, parsing.spans⟩
    · rw [readTokens_cons, Tree.tokens, append_assoc]
      exact parsing.inOrder
    · exact (forall_mem_cons.mp parsing.plain).2

theorem step_shift (follows : p.Follows C) {t : Token}
    (asks : C.Asks (top stack) t.symbol (.shift n)) :
    p.step (parseAt stack (t :: rest) index) =
      .next (parseAt ((n, .leaf t) :: stack) rest (index + 1)) := by
  have action : p.action? (parseAt stack (t :: rest) index) = some (.shift n) :=
    follows.action?_eq_some.mpr asks
  rw [Parser.step, action]
  rfl

theorem Collection.Asks.ne_end (avoids : g.AvoidsReserved) {q : Nat} {t : String}
    (asks : C.Asks q t (.shift n)) : t ≠ endSymbol := by
  cases asks with
  | shift edge _ =>
    rcases C.used _ _ _ edge with ⟨i, inside, next⟩
    have member := (inside.isOf (C.isOf q)).1
    exact (avoids.rhs member (mem_of_getElem? next)).2.1

/-- A state that accepts is reached by a tree of the start symbol alone. -/
theorem Parsing.of_accept (avoids : g.AvoidsReserved) (parsing : Parsing C stack rest)
    (asks : C.Asks (top stack) (upcoming rest) .accept) :
    ∃ n tree, stack = [(n, tree)] ∧ rest = [] ∧ tree.symbol = g.start := by
  cases asks with
  | accept item ends =>
    have spine := parsing.stacked.spine item
    rcases spine.of_advanced rfl with ⟨n, tree, _, rfl, symbol, begun⟩
    obtain rfl := begun.seed avoids rfl
    have empty : rest = [] := by
      cases rest with
      | nil => rfl
      | cons t _ => exact absurd ends (parsing.plain t mem_cons_self)
    exact ⟨n, tree, rfl, empty, (Option.some.inj symbol).symm⟩

theorem reduce_eq {location : Option Location} (length : above.length = r.rhs.length)
    (merged : Location.merge ((above.reverse.map (·.2)).map Tree.location) = .ok location)
    (goto : (p.row (top below)).gotos[r.lhs]? = some n) :
    p.reduce (parseAt (above ++ below) rest index) r =
      .next (parseAt ((n, .node r (above.reverse.map (·.2)) location) :: below) rest index) := by
  have children : (((above ++ below).take r.rhs.length).map (·.2)).reverse =
      above.reverse.map (·.2) := by
    rw [take_left' length, map_reverse]
  have dropped : (above ++ below).drop r.rhs.length = below := drop_left' length
  simp only [Parser.reduce, parseAt, children, dropped, merged, state_eq_top, goto]

/-- The trees of a right side can be put below one node. -/
theorem Parsing.fold (parsing : Parsing C (above ++ below) rest) (rule : r ∈ g.rules)
    (symbols : above.reverse.map (·.2.symbol) = r.rhs) (stacked : Stacked C below)
    (edge : C.edge (top below) r.lhs n) :
    ∃ location, Location.merge ((above.reverse.map (·.2)).map Tree.location) = .ok location ∧
      Parsing C ((n, .node r (above.reverse.map (·.2)) location) :: below) rest := by
  have ⟨derivations, derivationsBelow⟩ := forall_mem_append.mp parsing.derivations
  have ⟨spans, spansBelow⟩ := forall_mem_append.mp parsing.spans
  have tokens : readTokens (above ++ below) =
      readTokens below ++ (above.reverse.map (·.2)).flatMap Tree.tokens := by
    rw [readTokens_append, flatMap_map]
    rfl
  have inOrder := parsing.inOrder
  rw [tokens] at inOrder
  have spansAll : ∀ child ∈ above.reverse.map (·.2), Spans child := by
    intro child listed
    rcases mem_map.mp listed with ⟨frame, placed, rfl⟩
    exact spans frame (mem_reverse.mp placed)
  have derivation : ∀ child ∈ above.reverse.map (·.2), child.IsDerivation g := by
    intro child listed
    rcases mem_map.mp listed with ⟨frame, placed, rfl⟩
    exact derivations frame (mem_reverse.mp placed)
  have within : InOrder ((above.reverse.map (·.2)).flatMap Tree.tokens) :=
    inOrder.sublist ((sublist_append_right _ _).trans (sublist_append_left _ _))
  rcases merge_spans r spansAll within with ⟨location, merged, spansNode⟩
  refine ⟨location, merged, .cons stacked edge, ?_, ?_, ?_, parsing.plain⟩
  · refine forall_mem_cons.mpr ⟨.node rule ?_ derivation, derivationsBelow⟩
    rw [map_map]
    exact symbols
  · exact forall_mem_cons.mpr ⟨spansNode, spansBelow⟩
  · rw [readTokens_cons, Tree.tokens_node]
    exact inOrder

/-- A reduction puts the trees of a right side below one node. -/
theorem Parsing.reduce (follows : p.Follows C) (parsing : Parsing C stack rest) (index : Nat)
    (asks : C.Asks (top stack) (upcoming rest) (.reduce r)) :
    ∃ above below n location, stack = above ++ below ∧
      above.reverse.map (·.2.symbol) = r.rhs ∧ C.edge (top below) r.lhs n ∧
      p.step (parseAt stack rest index) =
        .next (parseAt ((n, .node r (above.reverse.map (·.2)) location) :: below) rest index) ∧
      Parsing C ((n, .node r (above.reverse.map (·.2)) location) :: below) rest := by
  have action : p.action? (parseAt stack rest index) = some (.reduce r) :=
    follows.action?_eq_some.mpr asks
  cases asks with
  | reduce item proper =>
    rcases (parsing.stacked.spine item).begun with ⟨above, below, rfl, length, symbols, begun⟩
    rw [take_length] at symbols
    rcases begun.expected rfl proper with ⟨i, spine, next, _⟩
    rcases C.progress _ _ _ spine.items next with ⟨n, edge⟩
    have member := begun.isOf.1
    have goto : (p.row (top below)).gotos[r.lhs]? = some n :=
      (follows.goto _ _ _).mpr ⟨edge, Grammar.lhs_mem_nonterminals member⟩
    rcases parsing.fold (Grammar.mem_rules_of_ne_seed member proper) symbols spine.stacked edge with
      ⟨location, merged, parsingNext⟩
    refine ⟨above, below, n, location, rfl, symbols, edge, ?_, parsingNext⟩
    rw [Parser.step, action]
    exact reduce_eq length merged goto

/-- A reduction takes off exactly the trees of its right side. -/
theorem Parsing.reduce_above (follows : p.Follows C) (parsing : Parsing C (above ++ stack) rest)
    (index : Nat) (symbols : above.reverse.map (·.2.symbol) = r.rhs)
    (asks : C.Asks (top (above ++ stack)) (upcoming rest) (.reduce r)) :
    ∃ n location, C.edge (top stack) r.lhs n ∧
      p.step (parseAt (above ++ stack) rest index) =
        .next (parseAt ((n, .node r (above.reverse.map (·.2)) location) :: stack) rest index) ∧
      Parsing C ((n, .node r (above.reverse.map (·.2)) location) :: stack) rest := by
  rcases parsing.reduce follows index asks with
    ⟨frames, _, n, location, split, framesEq, edge, step, parsingNext⟩
  have lengths : above.length = frames.length := by
    have equal := congrArg List.length (symbols.trans framesEq.symm)
    simpa using equal
  rcases append_inj split lengths with ⟨rfl, rfl⟩
  exact ⟨n, location, edge, step, parsingNext⟩

/-- What a step does: it shifts, reduces, accepts or rejects. -/
theorem Parsing.step_cases (avoids : g.AvoidsReserved) (follows : p.Follows C)
    (parsing : Parsing C stack rest) (index : Nat) :
    (∃ t others n, rest = t :: others ∧ Parsing C ((n, .leaf t) :: stack) others ∧
        p.step (parseAt stack rest index) =
          .next (parseAt ((n, .leaf t) :: stack) others (index + 1))) ∨
      (∃ r after, C.Asks (top stack) (upcoming rest) (.reduce r) ∧
        readTokens after = readTokens stack ∧ Parsing C after rest ∧
        p.step (parseAt stack rest index) = .next (parseAt after rest index)) ∨
      (∃ n tree, stack = [(n, tree)] ∧ rest = [] ∧ tree.symbol = g.start ∧
        p.step (parseAt stack rest index) = .accepted tree) ∨
      ∃ e, p.step (parseAt stack rest index) = .rejected e := by
  cases action : p.action? (parseAt stack rest index) with
  | none =>
    refine .inr (.inr (.inr ⟨p.reject (parseAt stack rest index), ?_⟩))
    rw [Parser.step, action]
  | some a =>
    have asks : C.Asks (top stack) (upcoming rest) a := follows.action?_eq_some.mp action
    cases a with
    | shift n =>
      cases rest with
      | nil => exact absurd rfl (asks.ne_end avoids)
      | cons t others =>
        exact .inl ⟨t, others, n, rfl, parsing.shift asks, step_shift follows asks⟩
    | reduce r =>
      rcases parsing.reduce follows index asks with
        ⟨_, _, n, _, rfl, _, _, step, parsingNext⟩
      refine .inr (.inl ⟨r, _, asks, ?_, parsingNext, step⟩)
      rw [readTokens_cons, readTokens_append, Tree.tokens_node, flatMap_map]
      rfl
    | accept =>
      rcases parsing.of_accept avoids asks with ⟨n, tree, rfl, rfl, root⟩
      refine .inr (.inr (.inl ⟨n, tree, rfl, rfl, root, ?_⟩))
      rw [Parser.step, action]
      rfl

/-- A parse that ends does not fail.  It gives an error or a derivation tree, of which the input is
the sequence of leaves. -/
theorem Parsing.outcome (avoids : g.AvoidsReserved) (follows : p.Follows C)
    {c : Configuration} {r : Checked (Except ParseError Tree)} (ends : p.Ends c r)
    (position : c = parseAt stack rest index) (parsing : Parsing C stack rest) :
    ∃ result, r = .ok result ∧ ∀ tree, result = .ok tree →
      tree.IsDerivation g ∧ tree.symbol = g.start ∧ tree.tokens = readTokens stack ++ rest := by
  induction ends generalizing stack rest index with
  | rejected _ => exact ⟨_, rfl, by rintro _ ⟨⟩⟩
  | failed step =>
    subst position
    rcases parsing.step_cases avoids follows index with
      ⟨_, _, _, _, _, other⟩ | ⟨_, _, _, _, _, other⟩ | ⟨_, _, _, _, _, other⟩ | ⟨_, other⟩ <;>
      cases step.symm.trans other
  | accepted step =>
    subst position
    rcases parsing.step_cases avoids follows index with
      ⟨_, _, _, _, _, other⟩ | ⟨_, _, _, _, _, other⟩ | ⟨n, _, rfl, rfl, root, other⟩ |
      ⟨_, other⟩ <;>
      cases step.symm.trans other
    refine ⟨_, rfl, ?_⟩
    rintro _ ⟨⟩
    exact ⟨parsing.derivations _ (mem_singleton_self _), root, by simp [readTokens]⟩
  | next step _ ih =>
    subst position
    rcases parsing.step_cases avoids follows index with
      ⟨t, _, n, rfl, shifted, other⟩ | ⟨_, _, _, kept, reduced, other⟩ |
      ⟨_, _, _, _, _, other⟩ | ⟨_, other⟩ <;>
      cases step.symm.trans other
    · have final := ih rfl shifted
      simpa only [readTokens_cons, Tree.tokens, append_assoc, singleton_append] using final
    · have final := ih rfl reduced
      rwa [kept] at final

theorem Parsing.accepted (avoids : g.AvoidsReserved) (follows : p.Follows C) {tree : Tree}
    (ends : p.Ends (parseAt stack rest index) (.ok (.ok tree))) (parsing : Parsing C stack rest) :
    tree.IsDerivation g ∧ tree.symbol = g.start ∧ tree.tokens = readTokens stack ++ rest := by
  rcases parsing.outcome avoids follows ends rfl with ⟨_, ⟨⟩, derived⟩
  exact derived tree rfl

end Steps

end BinaryLayout.LR
