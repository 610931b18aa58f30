import Mathlib.Order.Bounds.Basic
import BinaryLayout.Proofs.LR.Correctness

/-!
# Where an input is rejected

A parser reads a token only if some word of the grammar goes on with it, and stops at the first
one that none goes on with.  What it then expects are exactly the terminals that could have come.

The first half rests on `Parsing.opens_of_asks`: a terminal for which a state has any action can
follow what has been read.  Hence nothing is reduced before a terminal that cannot come, and the
stack on which an input is rejected is the one right after the last token was read (`Reads`).  That
stack does not depend on what comes next, so that every word which begins with the same tokens goes
through it too (`Reads.asks_of_opens`).
-/

namespace BinaryLayout.LR

open List

/-- Some word of the grammar, followed by the end of the input, begins with these symbols. -/
def Grammar.Opens (g : Grammar) (symbols : List String) : Prop :=
  ∃ word, g.Derivable word ∧ symbols <+: word ++ [endSymbol]

/-! ## Beginnings of words -/

section Opens

variable {g : Grammar}

theorem Grammar.Opens.mono {symbols others : List String} (opens : g.Opens symbols)
    (shorter : others <+: symbols) : g.Opens others := by
  rcases opens with ⟨word, derivable, begins⟩
  exact ⟨word, derivable, shorter.trans begins⟩

theorem Grammar.Derivable.ne_end (avoids : g.AvoidsReserved) {input : List Token}
    (derivable : g.Derivable (input.map Token.symbol)) : ∀ t ∈ input, t.symbol ≠ endSymbol := by
  rcases Grammar.derivable_iff_tree.mp derivable with ⟨_, derivation, root, rfl⟩
  intro t listed
  rcases derivation.leaves t listed with own | ⟨r, rule, placed⟩
  · exact (avoids _ (.inl (own.trans root))).2.1
  · exact (avoids _ (.inr ⟨r, rule, .inr placed⟩)).2.1

theorem singleton_prefix_upcoming (rest : List Token) :
    [upcoming rest] <+: rest.map Token.symbol ++ [endSymbol] := by
  cases rest with
  | nil => exact prefix_rfl
  | cons t => exact prefix_append [t.symbol] _

theorem upcoming_of_prefix {rest : List Token} {t : String}
    (begins : [t] <+: rest.map Token.symbol ++ [endSymbol]) : upcoming rest = t := by
  rcases begins with ⟨_, split⟩
  cases rest with
  | nil | cons => exact (List.cons.inj split).1.symm

/-- A terminal can follow tokens exactly if they can be continued with it to a word. -/
theorem opens_iff_continues (avoids : g.AvoidsReserved) {read : List Token} {t : String} :
    g.Opens (read.map Token.symbol ++ [t]) ↔
      ∃ later, Bare later ∧ upcoming later = t ∧
        g.Derivable ((read ++ later).map Token.symbol) := by
  constructor
  · rintro ⟨word, derivable, begins⟩
    have lengths := begins.length_le
    rw [length_append, length_append, length_singleton, length_singleton] at lengths
    have inWord : read.map Token.symbol <+: word :=
      prefix_of_prefix_length_le ((prefix_append _ _).trans begins)
        (prefix_append _ _) (Nat.le_of_add_le_add_right lengths)
    rcases inWord with ⟨tail, rfl⟩
    let later : List Token := tail.map fun symbol => ⟨symbol, "", none⟩
    have symbols : later.map Token.symbol = tail := by
      rw [map_map]
      exact map_id _
    have whole : (read ++ later).map Token.symbol = read.map Token.symbol ++ tail := by
      rw [map_append, symbols]
    rw [append_assoc, prefix_append_right_inj, ← symbols] at begins
    rw [← whole] at derivable
    refine ⟨later, fun t listed => ⟨?_, ?_⟩, upcoming_of_prefix begins, derivable⟩
    · rcases mem_map.mp listed with ⟨symbol, _, rfl⟩
      rfl
    · exact derivable.ne_end avoids t (mem_append_right _ listed)
  · rintro ⟨later, _, rfl, derivable⟩
    refine ⟨_, derivable, ?_⟩
    rw [map_append, append_assoc, prefix_append_right_inj]
    exact singleton_prefix_upcoming later

end Opens

/-! ## Runs of a deterministic parser -/

namespace Parser

variable {p : Parser} {c c' : Configuration}

/-- A parse ends the same way from every configuration that it goes through. -/
theorem Ends.of_reaches {r : Checked (Except ParseError Tree)} (ends : p.Ends c r)
    (reaches : p.Reaches c c') : p.Ends c' r := by
  induction reaches using Relation.ReflTransGen.head_induction_on with
  | refl => exact ends
  | head step _ ih =>
    cases ends with
    | accepted other | rejected other | failed other => cases step.symm.trans other
    | next other ends =>
      cases step.symm.trans other
      exact ih ends

theorem mem_expected {q : Nat} {t : String} :
    t ∈ p.expected q ↔ ∃ a, (p.row q).actions[t]? = some a := by
  rw [expected, mem_mergeSort, Std.HashMap.mem_keys, Std.HashMap.mem_iff_isSome_getElem?,
    Option.isSome_iff_exists]

end Parser

section Rejecting

variable {g : Grammar} {p : Parser} {C : Collection g} {stack : List Frame} {rest : List Token}

variable {i : Item} {r : Production} {t : String} {fresh after : List Frame} {read : List Token}

variable (avoids : g.AvoidsReserved) (productive : g.Productive) (follows : p.Follows C)

/-! ## Actions stand before terminals that can come -/

section

include avoids productive follows

/-- If an item is active, then what it expects and its lookahead can be read after what has been
read before. -/
theorem Spine.continues (spine : Spine C stack i) (parsing : Parsing C stack rest)
    {trees : List Tree} (samples : Samples g (i.production.rhs.drop i.dot) trees) :
    ∃ later, upcoming later = i.lookahead ∧ Bare later ∧
      g.Derivable
        ((readTokens stack ++ (trees.flatMap Tree.tokens ++ later)).map Token.symbol) := by
  rcases spine.finishes avoids productive follows with ⟨later, first, bare, finishes⟩
  have start : Parsing C stack (trees.flatMap Tree.tokens ++ later) :=
    parsing.of_bare (samples.bare.append bare)
  rcases builds_forest avoids samples.derivations
    (fun tree listed => builds_tree avoids follows (samples.derivations tree listed)) 0
    start spine.items samples.roots.symm first.symm with
    ⟨above, index, roots, _, parsingAbove, _, reaches⟩
  rcases finishes above index (roots.trans samples.roots) parsingAbove with ⟨tree, ends⟩
  have accepted := start.accepted avoids follows (reaches.ends ends)
  exact ⟨later, first, bare, Grammar.derivable_iff_tree.mpr ⟨tree, accepted⟩⟩

/-- The lookahead of an item that has been read to its end can come next. -/
theorem Parsing.opens_of_complete (parsing : Parsing C stack rest)
    (item : C.items (top stack) ⟨r, r.rhs.length, t⟩) :
    g.Opens ((readTokens stack).map Token.symbol ++ [t]) := by
  have nothing : Samples g (r.rhs.drop r.rhs.length) [] := by
    rw [drop_length]
    exact ⟨rfl, fun _ member => (not_mem_nil member).elim,
      fun _ member => (not_mem_nil member).elim⟩
  rcases (parsing.stacked.spine item).continues avoids productive follows parsing nothing with
    ⟨later, first, bare, derivable⟩
  exact (opens_iff_continues avoids).mpr ⟨later, bare, first, derivable⟩

theorem Parsing.opens_of_expected (parsing : Parsing C stack rest) (item : C.items (top stack) i)
    (next : i.next? = some t) (terminal : t ∉ g.nonterminals) :
    g.Opens ((readTokens stack).map Token.symbol ++ [t]) := by
  have spine := parsing.stacked.spine item
  have proper : ∀ s ∈ i.production.rhs, Grammar.Unreserved s := fun s placed =>
    avoids.rhs spine.isOf.1 placed
  rcases exists_samples avoids productive fun s placed =>
    proper s (mem_of_mem_drop placed) with ⟨others, samples⟩
  have first : Samples g [t] [.leaf ⟨t, "", none⟩] := by
    refine ⟨rfl, forall_mem_singleton.mpr (.leaf terminal), ?_⟩
    simp [Bare, Tree.tokens, (proper t (mem_of_getElem? next)).2]
  have all : Samples g (i.production.rhs.drop i.dot) (.leaf ⟨t, "", none⟩ :: others) := by
    rw [Item.drop_eq_cons.mpr ⟨next, rfl⟩]
    exact first.cons samples
  rcases spine.continues avoids productive follows parsing all with ⟨_, _, bare, derivable⟩
  refine (opens_iff_continues avoids).mpr ⟨_, all.bare.append bare, ?_, derivable⟩
  rw [flatMap_cons, Tree.tokens]
  rfl

/-- If a state has any action before a terminal, the terminal can come next. -/
theorem Parsing.opens_of_asks (parsing : Parsing C stack rest) {a : Action}
    (asks : C.Asks (top stack) t a) : g.Opens ((readTokens stack).map Token.symbol ++ [t]) := by
  cases asks with
  | shift edge terminal =>
    rcases C.used _ _ _ edge with ⟨i, item, next⟩
    exact parsing.opens_of_expected avoids productive follows item next terminal
  | reduce item => exact parsing.opens_of_complete avoids productive follows item
  | accept item ends =>
    subst ends
    exact parsing.opens_of_complete avoids productive follows item

end

/-! ## Terminals that can come have actions -/

/-- Whatever comes after them, the parser has this stack right after it has read the tokens. -/
def Reads (p : Parser) (read : List Token) (stack : List Frame) : Prop :=
  ∀ rest, p.Reaches (parseAt [] (read ++ rest) 0) (parseAt stack rest read.length)

/-- Whatever comes after the terminal, the parser goes from one stack to the other before it. -/
def Settles (p : Parser) (t : String) (stack after : List Frame) : Prop :=
  ∀ rest index, upcoming rest = t → p.Reaches (parseAt stack rest index) (parseAt after rest index)

theorem Settles.refl (t : String) (stack : List Frame) : Settles p t stack stack :=
  fun _ _ _ => .refl

theorem Settles.reduce (follows : p.Follows C) {index : Nat}
    (settles : Settles p (upcoming rest) fresh stack)
    (asks : C.Asks (top stack) (upcoming rest) (.reduce r))
    (step : p.step (parseAt stack rest index) = .next (parseAt after rest index)) :
    Settles p (upcoming rest) fresh after := fun others number same =>
  (settles others number same).tail (step_reduce_congr follows asks same step)

theorem Reads.shift (follows : p.Follows C) {t : Token} {n : Nat} (reads : Reads p read fresh)
    (settles : Settles p t.symbol fresh stack) (asks : C.Asks (top stack) t.symbol (.shift n)) :
    Reads p (read ++ [t]) ((n, .leaf t) :: stack) := by
  intro rest
  rw [append_assoc, singleton_append, length_append, length_singleton]
  exact ((reads (t :: rest)).trans (settles (t :: rest) read.length rfl)).tail
    (step_shift follows asks)

/-- If a terminal can follow what has been read, the parser has an action for it, before and after
reductions. -/
theorem Reads.asks_of_opens (avoids : g.AvoidsReserved) (follows : p.Follows C)
    (reads : Reads p read stack) (settles : Settles p t stack after) (inOrder : InOrder read)
    (opens : g.Opens (read.map Token.symbol ++ [t])) : ∃ a, C.Asks (top after) t a := by
  rcases (opens_iff_continues avoids).mp opens with ⟨later, bare, first, derivable⟩
  have plain := derivable.ne_end avoids
  have orderly : InOrder (read ++ later) := by
    rwa [InOrder, knownLocations_append_none fun t listed => (bare t listed).1]
  rcases Grammar.derivable_iff_tree.mp derivable with ⟨_, derivation, root, leaves⟩
  rw [← leaves] at plain orderly
  rcases accepts_derivation avoids follows derivation root (.start orderly plain) with ⟨_, ends⟩
  rw [leaves] at ends
  -- The word goes through the stack, and is not rejected there.
  have here := ends.of_reaches ((reads later).trans (settles later read.length first))
  cases action : p.action? (parseAt after later read.length) with
  | some a => exact ⟨a, first ▸ follows.action?_eq_some.mp action⟩
  | none =>
    have stop := Parser.step_of_no_action action
    cases here with
    | accepted step | next step _ => cases step.symm.trans stop

/-! ## The run to the error -/

/-- What is known of a parse on its way through an input. -/
structure Halfway (g : Grammar) (p : Parser) (read : List Token) (stack : List Frame)
    (rest : List Token) : Prop where
  tokens : readTokens stack = read
  /-- The stack comes from that after the last token, and is another one only if the next terminal
  can come. -/
  settled : ∃ fresh, Reads p read fresh ∧ Settles p (upcoming rest) fresh stack ∧
    (fresh = stack ∨ g.Opens (read.map Token.symbol ++ [upcoming rest]))
  opens : read = [] ∨ g.Opens (read.map Token.symbol)

theorem Halfway.start (input : List Token) : Halfway g p [] [] input :=
  ⟨rfl, ⟨[], fun _ => .refl, .refl _ _, .inl rfl⟩, .inl rfl⟩

/-- Where an input was rejected: right after some of it had been read, in a state without an action
for what came next. -/
structure RejectedAt (C : Collection g) (p : Parser) (read rest : List Token) (stack : List Frame)
    (e : ParseError) : Prop where
  parsing : Parsing C stack rest
  tokens : readTokens stack = read
  reads : Reads p read stack
  opens : read = [] ∨ g.Opens (read.map Token.symbol)
  index : e.index = read.length
  expected : e.expected = p.expected (top stack)
  stuck : ∀ a, ¬ C.Asks (top stack) (upcoming rest) a

include avoids follows in
theorem Halfway.rejected {e : ParseError} (halfway : Halfway g p read stack rest)
    (parsing : Parsing C stack rest)
    (step : p.step (parseAt stack rest read.length) = .rejected e) :
    RejectedAt C p read rest stack e := by
  rcases Parser.step_eq_rejected step with ⟨action, rfl⟩
  have stuck : ∀ a, ¬ C.Asks (top stack) (upcoming rest) a := fun a asks => by
    cases action.symm.trans (follows.action?_eq_some.mpr asks)
  rcases halfway.settled with ⟨_, reads, settles, rfl | opens⟩
  · refine ⟨parsing, halfway.tokens, reads, halfway.opens, rfl, ?_, stuck⟩
    rw [Parser.reject, state_eq_top]
    rfl
  · -- What can come is not rejected, whatever has been reduced before it.
    have inOrder : InOrder read :=
      halfway.tokens ▸ parsing.inOrder.sublist (sublist_append_left _ _)
    rcases reads.asks_of_opens avoids follows settles inOrder opens with ⟨a, asks⟩
    exact absurd asks (stuck a)

section

include avoids productive follows

theorem Halfway.shift {t : Token} {n : Nat}
    (halfway : Halfway g p read stack (t :: rest)) (parsing : Parsing C stack (t :: rest))
    (asks : C.Asks (top stack) t.symbol (.shift n)) :
    Halfway g p (read ++ [t]) ((n, .leaf t) :: stack) rest := by
  rcases halfway.settled with ⟨_, reads, settles, _⟩
  refine ⟨?_, ⟨_, reads.shift follows settles asks, .refl _ _, .inl rfl⟩, .inr ?_⟩
  · rw [readTokens_cons, halfway.tokens, Tree.tokens]
  · have opens := parsing.opens_of_asks avoids productive follows asks
    rwa [halfway.tokens, ← map_singleton, ← map_append] at opens

theorem Halfway.reduce {index : Nat} (halfway : Halfway g p read stack rest)
    (parsing : Parsing C stack rest)
    (asks : C.Asks (top stack) (upcoming rest) (.reduce r))
    (kept : readTokens after = readTokens stack)
    (step : p.step (parseAt stack rest index) = .next (parseAt after rest index)) :
    Halfway g p read after rest := by
  rcases halfway.settled with ⟨fresh, reads, settles, _⟩
  have opens := parsing.opens_of_asks avoids productive follows asks
  rw [halfway.tokens] at opens
  exact ⟨kept.trans halfway.tokens,
    ⟨fresh, reads, settles.reduce follows asks step, .inr opens⟩, halfway.opens⟩

theorem Halfway.rejectedAt {c : Configuration} {r : Checked (Except ParseError Tree)}
    {e : ParseError} (ends : p.Ends c r) (position : c = parseAt stack rest read.length)
    (failure : r = .ok (.error e)) (parsing : Parsing C stack rest)
    (halfway : Halfway g p read stack rest) :
    ∃ done left last, read ++ rest = done ++ left ∧ RejectedAt C p done left last e := by
  induction ends generalizing stack rest read with
  | accepted _ | failed _ => cases failure
  | rejected step =>
    subst position
    cases failure
    exact ⟨read, rest, stack, rfl, halfway.rejected avoids follows parsing step⟩
  | next step _ ih =>
    subst position
    rcases parsing.step_cases avoids follows read.length with
      ⟨t, _, n, rfl, shifted, other⟩ | ⟨_, _, asks, kept, reduced, other⟩ |
      ⟨_, _, _, _, _, other⟩ | ⟨_, other⟩ <;>
      cases step.symm.trans other
    · have asks : C.Asks (top stack) t.symbol (.shift n) := by
        cases shifted.stacked with
        | cons _ edge =>
          cases shifted.derivations _ mem_cons_self with
          | leaf terminal => exact .shift edge terminal
      have length : read.length + 1 = (read ++ [t]).length := by simp
      rcases ih (congrArg _ length) failure shifted
        (halfway.shift avoids productive follows parsing asks) with
        ⟨done, left, last, split, rejected⟩
      rw [append_assoc, singleton_append] at split
      exact ⟨done, left, last, split, rejected⟩
    · exact ih rfl failure reduced
        (halfway.reduce avoids productive follows parsing asks kept other)

namespace RejectedAt

variable {e : ParseError}

theorem opens_iff_asks (rejected : RejectedAt C p read rest stack e) :
    g.Opens (read.map Token.symbol ++ [t]) ↔ ∃ a, C.Asks (top stack) t a := by
  rcases rejected.tokens with rfl
  constructor
  · have inOrder := rejected.parsing.inOrder.sublist (sublist_append_left _ _)
    exact rejected.reads.asks_of_opens avoids follows (.refl t stack) inOrder
  · rintro ⟨a, asks⟩
    exact rejected.parsing.opens_of_asks avoids productive follows asks

/-- The expected terminals are those that can follow what was read. -/
theorem mem_expected (rejected : RejectedAt C p read rest stack e) :
    t ∈ e.expected ↔ g.Opens (read.map Token.symbol ++ [t]) := by
  rw [rejected.opens_iff_asks avoids productive follows, rejected.expected, Parser.mem_expected]
  exact exists_congr fun a => follows.action _ _ _

/-- The first symbols up to the rejected one are the shortest that begin no word. -/
theorem isLeast_index (rejected : RejectedAt C p read rest stack e) :
    IsLeast {i | ¬ g.Opens (((read ++ rest).map Token.symbol ++ [endSymbol]).take (i + 1))}
      e.index := by
  have split : (read ++ rest).map Token.symbol ++ [endSymbol] =
      read.map Token.symbol ++ (rest.map Token.symbol ++ [endSymbol]) := by
    rw [map_append, append_assoc]
  rw [split, rejected.index]
  constructor
  · have upTo : (read.map Token.symbol ++ (rest.map Token.symbol ++ [endSymbol])).take
        (read.length + 1) = read.map Token.symbol ++ [upcoming rest] := by
      rw [← length_map Token.symbol, take_length_add_append]
      rcases singleton_prefix_upcoming rest with ⟨_, equal⟩
      rw [← equal]
      rfl
    intro opens
    rw [upTo, rejected.opens_iff_asks avoids productive follows] at opens
    rcases opens with ⟨a, asks⟩
    exact rejected.stuck a asks
  · intro i closed
    by_contra earlier
    have within : i + 1 ≤ (read.map Token.symbol).length := by
      rw [length_map]
      exact Nat.not_le.mp earlier
    rw [Set.mem_ofPred_eq, take_append_of_le_length within] at closed
    rcases rejected.opens with rfl | opens
    · exact Nat.not_succ_le_zero i within
    · exact closed (opens.mono <| take_prefix _ _)

end RejectedAt

end

end Rejecting

/-- A parser without conflicts rejects an input that is no word at the first symbol with which no
word goes on, and then expects exactly the terminals with which some word does. -/
theorem parse_rejects_first {g : Grammar} {p : Parser} {input : List Token}
    (avoids : g.AvoidsReserved) (productive : g.Productive) (tableEq : g.table = .ok p.table)
    (free : p.table.conflicts = []) (plain : ∀ t ∈ input, t.symbol ≠ endSymbol)
    (inOrder : InOrder input) (noWord : ¬ g.Derivable (input.map Token.symbol)) :
    ∃ e, p.parseTokens input = .ok (.error e) ∧
      IsLeast {i | ¬ g.Opens ((input.map Token.symbol ++ [endSymbol]).take (i + 1))} e.index ∧
      ∀ t, t ∈ e.expected ↔ g.Opens ((input.map Token.symbol).take e.index ++ [t]) := by
  rcases exists_follows tableEq free with ⟨C, follows⟩
  have parsing : Parsing C [] input := .start inOrder plain
  rcases parsing.terminates avoids productive follows 0 with ⟨result, ends⟩
  cases result with
  | ok tree =>
    have accepted := parsing.accepted avoids follows ends
    exact absurd (Grammar.derivable_iff_tree.mpr ⟨tree, accepted⟩) noWord
  | error e =>
    rcases (Halfway.start input).rejectedAt avoids productive follows ends rfl rfl parsing with
      ⟨read, rest, _, rfl, rejected⟩
    refine ⟨e, Parser.parseTokens_eq_ok.mpr ends,
      rejected.isLeast_index avoids productive follows, fun t => ?_⟩
    have before : ((read ++ rest).map Token.symbol).take e.index = read.map Token.symbol := by
      rw [map_append, rejected.index, take_left' (length_map _)]
    rw [before]
    exact rejected.mem_expected avoids productive follows

theorem Grammar.HasSoleWord.opens_iff {g : Grammar} {word symbols : List String}
    (sole : g.HasSoleWord word) :
    g.Opens symbols ↔ symbols <+: word ++ [endSymbol] := by
  constructor
  · rintro ⟨other, derivable, begins⟩
    rwa [sole.eq_of_derivable other derivable] at begins
  · exact fun begins => ⟨word, sole.derivable, begins⟩

/-- After `a` alone, the end of the input is rejected and `b` is expected. -/
theorem parse_rejects_first_pair :
    ∃ p : Parser, Pair.grammar.table = .ok p.table ∧ p.table.conflicts = [] ∧
      ∃ e, p.parseTokens [Pair.first 1] = .ok (.error e) ∧ e.index = 1 ∧
        ∀ t, t ∈ e.expected ↔ t = "b" := by
  rcases Pair.covers.exists_table (by decide) with ⟨table, tableEq, free⟩
  have plain : ∀ t ∈ [Pair.first 1], t.symbol ≠ endSymbol := by decide
  have noWord : ¬ Pair.grammar.Derivable ([Pair.first 1].map Token.symbol) := fun derivable =>
    absurd (Pair.hasSoleWord.eq_of_derivable _ derivable) (by decide)
  rcases parse_rejects_first (p := ⟨table, {}⟩) Pair.avoidsReserved Pair.productive tableEq free
    plain (by decide) noWord with ⟨e, rejected, least, expected⟩
  have index : e.index = 1 := by
    refine least.unique ⟨?_, fun i closed => ?_⟩
    · rw [Set.mem_ofPred_eq, Pair.hasSoleWord.opens_iff]
      decide
    · by_contra earlier
      obtain rfl : i = 0 := by omega
      rw [Set.mem_ofPred_eq, Pair.hasSoleWord.opens_iff] at closed
      exact closed (by decide)
  refine ⟨⟨table, {}⟩, tableEq, free, e, rejected, index, fun t => ?_⟩
  rw [expected, index, Pair.hasSoleWord.opens_iff]
  simp [Pair.first, cons_prefix_cons]

/-! ## Tokens out of order -/

namespace Nested

def inner : Production := ⟨"A", ["a", "b"]⟩

def outer : Production := ⟨"S", ["A", "c"]⟩

/-- The grammar of the sequence `a b c`, with a node for `a b`. -/
def grammar : Grammar := ⟨"S", [outer, inner]⟩

def cover : Cover where
  firsts := [("S", [some "a"]), ("A", [some "a"]), (seedSymbol, [some "a"])]
  states :=
    [[⟨grammar.seed, 0, endSymbol⟩, ⟨outer, 0, endSymbol⟩, ⟨inner, 0, "c"⟩],
      [⟨grammar.seed, 1, endSymbol⟩], [⟨outer, 1, endSymbol⟩], [⟨outer, 2, endSymbol⟩],
      [⟨inner, 1, "c"⟩], [⟨inner, 2, "c"⟩]]

theorem covers : cover.Covers grammar :=
  ⟨by decide, by decide, by decide, by decide, by decide⟩

theorem avoidsReserved : grammar.AvoidsReserved :=
  Grammar.avoidsReserved_of_rules (by decide) (by decide)

def last : Token := ⟨"c", "c", none⟩

theorem hasSoleWord : grammar.HasSoleWord ["a", "b", "c"] :=
  Grammar.hasSoleWord_of_expansion (by decide) (by decide)

theorem productive : grammar.Productive :=
  Grammar.productive_of_expansion (by decide)

/-- One token too many, and `b` on a line before that of `a`. -/
def input : List Token := [Pair.first 2, Pair.second 1, last, last]

end Nested

/-- If tokens are out of order, an input that is no word need not come to be rejected. -/
theorem reject_backwards :
    ∃ p : Parser, Nested.grammar.AvoidsReserved ∧ Nested.grammar.Productive ∧
      Nested.grammar.table = .ok p.table ∧ p.table.conflicts = [] ∧
      (∀ t ∈ Nested.input, t.symbol ≠ endSymbol) ∧
      ¬ Nested.grammar.Derivable (Nested.input.map Token.symbol) ∧
      p.parseTokens Nested.input = .error .invariant := by
  rcases Nested.covers.exists_table (by decide) with ⟨table, tableEq, free⟩
  let p : Parser := ⟨table, {}⟩
  rcases exists_follows (p := p) tableEq free with ⟨C, follows⟩
  have noWord : ¬ Nested.grammar.Derivable (Nested.input.map Token.symbol) := fun derivable =>
    absurd (Nested.hasSoleWord.eq_of_derivable _ derivable) (by decide)
  refine ⟨p, Nested.avoidsReserved, Nested.productive, tableEq, free, by decide, noWord, ?_⟩
  have whole : C.items 0 ⟨Nested.outer, 0, endSymbol⟩ :=
    .expand (.kernel ((C.start _).mpr rfl)) rfl (by decide) (.terminal (by decide) (by decide))
  have begun : C.items 0 ⟨Nested.inner, 0, "c"⟩ :=
    .expand whole rfl (by decide) (.terminal (by decide) (by decide))
  exact Pair.fails follows begun (by decide) (by decide)

end BinaryLayout.LR
