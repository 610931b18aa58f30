import Mathlib.Algebra.BigOperators.Group.Finset.Basic
import Mathlib.Algebra.Order.BigOperators.Group.Finset
import BinaryLayout.Proofs.LR.Derivation

/-!
# First terminals

`Begins g symbols f` says what `symbols` can begin with: `f` is a terminal that can begin what
they derive, or nothing if they derive the empty sequence.  It is defined by unfolding the first
symbol, and so makes sense also for symbols from which no sequence of terminals can be derived.
A terminal that is the empty text is passed over.

The main result is that the first sets of a grammar are exact: `mem_firstOf`.  A first set only
grows and holds each terminal at most once, so the rounds that are allotted to the computation
are enough to reach a fixed point.
-/

namespace BinaryLayout.LR

open List

variable {firsts : Firsts} {p : Production} {f : Option String} {g : Grammar}
  {symbols form : List String}

theorem nodup_eraseDups {α : Type} [BEq α] [LawfulBEq α] (list : List α) :
    list.eraseDups.Nodup := by
  induction size : list.length using Nat.strong_induction_on generalizing list with
  | _ _ ih =>
    cases list with
    | nil => exact nodup_nil
    | cons a rest =>
      have shorter := length_filter_le (fun b => !b == a) rest
      rw [eraseDups_cons, nodup_cons]
      refine ⟨by simp, ih _ ?_ _ rfl⟩
      rw [← size, length_cons]
      omega

/-- What a sequence of symbols can begin with: a terminal, or nothing at all. -/
inductive Begins (g : Grammar) : List String → Option String → Prop
  | nil : Begins g [] none
  | terminal {t : String} {rest : List String} (terminal : t ∉ g.nonterminals)
      (named : t ≠ "") : Begins g (t :: rest) (some t)
  | expand {p : Production} {rest : List String} {f : Option String}
      (member : p ∈ g.productions) (begins : Begins g (p.rhs ++ rest) f) :
      Begins g (p.lhs :: rest) f

namespace Begins

variable {g : Grammar} {symbols rest : List String} {f : Option String} {t : String}

theorem append {e : Option String} (begins : Begins g symbols e)
    (after : e = none → Begins g rest f) : Begins g (symbols ++ rest) (e.or f) := by
  induction begins with
  | nil => exact after rfl
  | terminal terminal named => exact .terminal terminal named
  | expand member _ ih =>
    have further := ih after
    rw [append_assoc] at further
    exact .expand member further

theorem isTerminal (begins : Begins g symbols f) (first : f = some t) :
    t ∉ g.nonterminals ∧ t ≠ "" := by
  induction begins with
  | nil => cases first
  | terminal terminal named =>
    cases first
    exact ⟨terminal, named⟩
  | expand _ _ ih => exact ih first

/-- A first terminal stands in the symbols themselves or on some right side. -/
theorem occurs (begins : Begins g symbols f) (isTerminal : f = some t) :
    t ∈ symbols ∨ ∃ p ∈ g.productions, t ∈ p.rhs := by
  induction begins with
  | nil => cases isTerminal
  | terminal _ _ =>
    cases isTerminal
    exact .inl mem_cons_self
  | @expand p _ _ member _ ih =>
    rcases ih isTerminal with placed | other
    · rcases mem_append.mp placed with inside | after
      · exact .inr ⟨p, member, inside⟩
      · exact .inl (mem_cons_of_mem _ after)
    · exact .inr other

end Begins

namespace Grammar

theorem mem_terminals {t : String} :
    t ∈ g.terminals ↔
      (t = endSymbol ∨ ∃ p ∈ g.productions, t = p.lhs ∨ t ∈ p.rhs) ∧ t ∉ g.nonterminals := by
  simp [terminals, nonterminalSet, symbols, mem_filter, nonterminals]

theorem mem_terminals_of_rhs {t : String} (member : p ∈ g.productions) (placed : t ∈ p.rhs)
    (terminal : t ∉ g.nonterminals) :
    t ∈ g.terminals :=
  mem_terminals.mpr ⟨.inr ⟨p, member, .inr placed⟩, terminal⟩

theorem nodup_nonterminals (g : Grammar) : g.nonterminals.Nodup :=
  nodup_eraseDups _

end Grammar

/-! ## First sets of sequences, as computed -/

section FirstOf

variable {firsts : Firsts} {symbol : String} {symbols rest : List String} {f : Option String}

theorem mem_firstOf_cons_terminal (terminal : symbol ∉ firsts) :
    f ∈ firstOf firsts (symbol :: rest) ↔ f = some symbol ∧ symbol ≠ "" := by
  have missing : firsts[symbol]? = none := Std.HashMap.getElem?_eq_none terminal
  simp only [firstOf, missing]
  split <;> simp [*]

theorem mem_firstOf_cons_nonterminal (nonterminal : symbol ∈ firsts) :
    f ∈ firstOf firsts (symbol :: rest) ↔
      (f ∈ firsts.getD symbol [] ∧ f ≠ none) ∨
        (none ∈ firsts.getD symbol [] ∧ f ∈ firstOf firsts rest) := by
  have found : firsts[symbol]? = some (firsts.getD symbol []) :=
    Std.HashMap.getElem?_eq_some_getD nonterminal
  simp only [firstOf, found]
  by_cases vanishes : none ∈ firsts.getD symbol []
  · rw [if_pos (contains_iff_mem.mpr vanishes), mem_append, mem_filter, Option.isSome_iff_ne_none]
    simp only [vanishes, true_and]
  · rw [if_neg (by simpa using vanishes)]
    simp only [vanishes, false_and, or_false, iff_self_and]
    rintro member rfl
    exact vanishes member

theorem mem_firstOf_append :
    f ∈ firstOf firsts (symbols ++ rest) ↔
      (f ∈ firstOf firsts symbols ∧ f ≠ none) ∨
        (none ∈ firstOf firsts symbols ∧ f ∈ firstOf firsts rest) := by
  induction symbols with
  | nil => simp [firstOf]
  | cons symbol _ ih =>
    rw [cons_append]
    by_cases nonterminal : symbol ∈ firsts
    · simp only [mem_firstOf_cons_nonterminal nonterminal, ih]
      tauto
    · simp only [mem_firstOf_cons_terminal nonterminal, reduceCtorEq, false_and, or_false,
        iff_self_and]
      rintro ⟨rfl, _⟩
      exact Option.some_ne_none symbol

theorem firstOf_congr {others : Firsts} (same : ∀ name : String, firsts[name]? = others[name]?) :
    firstOf firsts symbols = firstOf others symbols := by
  induction symbols with
  | nil => rfl
  | cons symbol rest ih => simp only [firstOf, same symbol, ih]

end FirstOf

/-- First sets under construction: all that they hold is right, and no terminal twice. -/
structure Firsts.Valid (g : Grammar) (firsts : Firsts) : Prop where
  keys : ∀ n, n ∈ firsts ↔ n ∈ g.nonterminals
  distinct : ∀ n, (firsts.getD n []).Nodup
  begins : ∀ n, ∀ f ∈ firsts.getD n [], Begins g [n] f

/-- Nothing can be added to the first sets. -/
def Firsts.Saturated (g : Grammar) (firsts : Firsts) : Prop :=
  ∀ p ∈ g.productions, ∀ f ∈ firstOf firsts p.rhs, f ∈ firsts.getD p.lhs []

section Exact

variable {g : Grammar} {firsts : Firsts} {symbols : List String} {f : Option String}

theorem Firsts.Valid.begins_of_mem (valid : firsts.Valid g)
    (member : f ∈ firstOf firsts symbols) : Begins g symbols f := by
  induction symbols generalizing f with
  | nil =>
    obtain rfl := mem_singleton.mp member
    exact .nil
  | cons symbol rest ih =>
    by_cases nonterminal : symbol ∈ firsts
    · rcases (mem_firstOf_cons_nonterminal nonterminal).mp member with
        ⟨inside, isTerminal⟩ | ⟨vanishes, after⟩
      · rcases Option.ne_none_iff_exists'.mp isTerminal with ⟨t, rfl⟩
        exact (valid.begins symbol _ inside).append (f := none) nofun
      · exact (valid.begins symbol _ vanishes).append fun _ => ih after
    · rcases (mem_firstOf_cons_terminal nonterminal).mp member with ⟨rfl, named⟩
      exact .terminal (fun listed => nonterminal ((valid.keys symbol).mpr listed)) named

theorem Firsts.Saturated.mem_of_begins (saturated : firsts.Saturated g) (valid : firsts.Valid g)
    (begins : Begins g symbols f) : f ∈ firstOf firsts symbols := by
  induction begins with
  | nil => exact mem_singleton_self _
  | terminal terminal named =>
    have missing := fun listed => terminal ((valid.keys _).mp listed)
    exact (mem_firstOf_cons_terminal missing).mpr ⟨rfl, named⟩
  | @expand p rest f member _ ih =>
    have nonterminal : p.lhs ∈ firsts :=
      (valid.keys _).mpr (Grammar.lhs_mem_nonterminals member)
    rw [mem_firstOf_cons_nonterminal nonterminal]
    rcases mem_firstOf_append.mp ih with ⟨inside, isTerminal⟩ | ⟨vanishes, after⟩
    · exact .inl ⟨saturated p member _ inside, isTerminal⟩
    · exact .inr ⟨saturated p member _ vanishes, after⟩

end Exact

/-! ## The rounds of the computation -/

theorem getD_addFirsts (firsts : Firsts) (p : Production) (n : String) :
    (addFirsts firsts p).getD n [] =
      if p.lhs = n then
        firsts.getD n [] ++
          (firstOf firsts p.rhs).eraseDups.filter fun f => !(firsts.getD n []).contains f
      else firsts.getD n [] := by
  unfold addFirsts
  dsimp only
  split
  · next nothing =>
      split
      · next same =>
          subst same
          rw [List.isEmpty_iff.mp nothing, append_nil]
      · rfl
  · rw [Std.HashMap.getD_insert]
    by_cases same : p.lhs = n
    · subst same
      simp only [beq_self_eq_true, if_true]
    · simp only [beq_iff_eq, same, if_false]

theorem mem_addFirsts {n : String} (known : p.lhs ∈ firsts) :
    n ∈ addFirsts firsts p ↔ n ∈ firsts := by
  unfold addFirsts
  dsimp only
  split
  · rfl
  · rw [Std.HashMap.mem_insert, beq_iff_eq]
    constructor
    · rintro (rfl | member)
      · exact known
      · exact member
    · exact .inr

/-- The entry of the left side takes in all that the right side can begin with. -/
theorem mem_addFirsts_of_mem (member : f ∈ firstOf firsts p.rhs) :
    f ∈ (addFirsts firsts p).getD p.lhs [] := by
  rw [getD_addFirsts, if_pos rfl]
  by_cases known : f ∈ firsts.getD p.lhs []
  · exact mem_append_left _ known
  · refine mem_append_right _ (mem_filter.mpr ⟨mem_eraseDups.mpr member, ?_⟩)
    simpa using known

namespace Firsts

variable {g : Grammar} {firsts : Firsts}

theorem grows_addFirsts (firsts : Firsts) (p : Production) (n : String) :
    firsts.getD n [] <+: (addFirsts firsts p).getD n [] := by
  rw [getD_addFirsts]
  split
  · exact prefix_append _ _
  · exact prefix_rfl

theorem grows_round (ps : List Production) (firsts : Firsts) (n : String) :
    firsts.getD n [] <+: (ps.foldl addFirsts firsts).getD n [] := by
  induction ps generalizing firsts with
  | nil => exact prefix_rfl
  | cons p rest ih => exact (grows_addFirsts firsts p n).trans (ih _)

theorem Valid.addFirsts (valid : firsts.Valid g) (member : p ∈ g.productions) :
    (addFirsts firsts p).Valid g where
  keys n := by
    have known : p.lhs ∈ firsts := (valid.keys _).mpr (Grammar.lhs_mem_nonterminals member)
    rw [mem_addFirsts known, valid.keys]
  distinct n := by
    rw [getD_addFirsts]
    split
    · refine List.Nodup.append (valid.distinct n) ((nodup_eraseDups _).filter _) ?_
      intro f known new
      simp [known] at new
    · exact valid.distinct n
  begins n f listed := by
    rw [getD_addFirsts] at listed
    split at listed
    · next same =>
        subst same
        rcases mem_append.mp listed with known | new
        · exact valid.begins _ f known
        · have first := valid.begins_of_mem (mem_eraseDups.mp (mem_filter.mp new).1)
          exact .expand member (by rwa [append_nil])
    · exact valid.begins n f listed

theorem Valid.round {ps : List Production} (valid : firsts.Valid g)
    (members : ∀ p ∈ ps, p ∈ g.productions) : (ps.foldl LR.addFirsts firsts).Valid g := by
  induction ps generalizing firsts with
  | nil => exact valid
  | cons p rest ih =>
    have ⟨member, others⟩ := forall_mem_cons.mp members
    exact ih (valid.addFirsts member) others

theorem Valid.size_eq (valid : firsts.Valid g) :
    firsts.size = ∑ n ∈ g.nonterminals.toFinset, (firsts.getD n []).length := by
  have keysNodup : (firsts.toList.map (·.1)).Nodup := by
    rw [Std.HashMap.map_fst_toList_eq_keys]
    exact Std.HashMap.nodup_keys
  have entries : firsts.toList.Perm (g.nonterminals.map fun n => (n, firsts.getD n [])) := by
    refine (perm_ext_iff_of_nodup keysNodup.of_map ?_).mpr ?_
    · exact g.nodup_nonterminals.map fun a b equal => (Prod.mk.inj equal).1
    · rintro ⟨n, set⟩
      rw [Std.HashMap.mem_toList_iff_getElem?_eq_some, mem_map]
      constructor
      · intro found
        refine ⟨n, (valid.keys n).mp (Std.HashMap.mem_iff_isSome_getElem?.mpr (by simp [found])), ?_⟩
        rw [Std.HashMap.getD_eq_getD_getElem?, found, Option.getD_some]
      · rintro ⟨_, listed, equal⟩
        cases equal
        exact Std.HashMap.getElem?_eq_some_getD ((valid.keys n).mpr listed)
  have folded : firsts.size = (firsts.toList.map (·.2.length)).sum := by
    rw [size, Std.HashMap.fold_eq_foldl_toList, sum_eq_foldl, foldl_map]
  rw [folded, (entries.map _).sum_eq, map_map, sum_toFinset _ g.nodup_nonterminals]
  rfl

theorem Valid.size_le (valid : firsts.Valid g) :
    firsts.size ≤ g.nonterminals.length * (g.terminals.length + 1) := by
  rw [valid.size_eq, ← toFinset_card_of_nodup g.nodup_nonterminals, ← Nat.nsmul_eq_mul]
  refine Finset.sum_le_card_nsmul _ _ _ fun n listed => ?_
  have inside : firsts.getD n [] ⊆ none :: g.terminals.map some := by
    intro f member
    cases f with
    | none => exact mem_cons_self
    | some t =>
      have begins := valid.begins n _ member
      have terminal := (begins.isTerminal rfl).1
      refine mem_cons_of_mem _ (mem_map_of_mem ?_)
      rcases begins.occurs rfl with own | ⟨p, production, placed⟩
      · obtain rfl := mem_singleton.mp own
        exact absurd (mem_toFinset.mp listed) terminal
      · exact Grammar.mem_terminals_of_rhs production placed terminal
  simpa using ((valid.distinct n).subperm inside).length_le

/-- A round that adds no entry changes nothing, so there was nothing to add. -/
theorem Valid.saturated_of_unchanged {ps : List Production} (valid : firsts.Valid g)
    (members : ∀ p ∈ ps, p ∈ g.productions)
    (unchanged : ∀ n, (ps.foldl LR.addFirsts firsts).getD n [] = firsts.getD n []) :
    ∀ p ∈ ps, ∀ f ∈ firstOf firsts p.rhs, f ∈ firsts.getD p.lhs [] := by
  induction ps generalizing firsts with
  | nil => exact fun p member => (not_mem_nil member).elim
  | cons p rest ih =>
    have ⟨member, others⟩ := forall_mem_cons.mp members
    have validNext := valid.addFirsts member
    -- The first step lies between the sets before the round and those after it.
    have same : ∀ n, (LR.addFirsts firsts p).getD n [] = firsts.getD n [] := by
      intro n
      have later := grows_round rest (LR.addFirsts firsts p) n
      rw [← foldl_cons, unchanged n] at later
      exact later.eq_of_length_le (grows_addFirsts firsts p n).length_le
    have lookups : ∀ name : String, (LR.addFirsts firsts p)[name]? = firsts[name]? := by
      intro name
      by_cases listed : name ∈ g.nonterminals
      · have before : firsts[name]? = some (firsts.getD name []) :=
          Std.HashMap.getElem?_eq_some_getD ((valid.keys name).mpr listed)
        rw [before, ← same name]
        exact Std.HashMap.getElem?_eq_some_getD ((validNext.keys name).mpr listed)
      · rw [Std.HashMap.getElem?_eq_none fun inside => listed ((valid.keys name).mp inside),
          Std.HashMap.getElem?_eq_none fun inside => listed ((validNext.keys name).mp inside)]
    have further := ih validNext others fun n => (unchanged n).trans (same n).symm
    refine forall_mem_cons.mpr ⟨?_, ?_⟩
    · intro f first
      rw [← same]
      exact mem_addFirsts_of_mem first
    · intro q placed f first
      rw [← same]
      refine further q placed f ?_
      rwa [firstOf_congr lookups]

end Firsts

theorem saturateFirsts_saturated {rounds : Nat} (valid : firsts.Valid g)
    (enough : g.nonterminals.length * (g.terminals.length + 1) < rounds + firsts.size) :
    (saturateFirsts g.productions rounds firsts).Valid g ∧
      (saturateFirsts g.productions rounds firsts).Saturated g := by
  induction rounds generalizing firsts with
  | zero =>
    have atMost := valid.size_le
    omega
  | succ _ ih =>
    have validNext := valid.round fun p (member : p ∈ g.productions) => member
    have lengths : ∀ n ∈ g.nonterminals.toFinset, (firsts.getD n []).length ≤
        ((g.productions.foldl addFirsts firsts).getD n []).length :=
      fun n _ => (Firsts.grows_round g.productions firsts n).length_le
    have sizes := Finset.sum_le_sum lengths
    rw [← valid.size_eq, ← validNext.size_eq] at sizes
    simp only [saturateFirsts]
    split
    · next equal =>
        refine ⟨valid, valid.saturated_of_unchanged (fun p member => member) fun n => ?_⟩
        rw [valid.size_eq, validNext.size_eq] at equal
        by_cases listed : n ∈ g.nonterminals
        · have length := (Finset.sum_eq_sum_iff_of_le lengths).mp equal.symm n
            (mem_toFinset.mpr listed)
          exact ((Firsts.grows_round g.productions firsts n).eq_of_length length).symm
        · rw [Std.HashMap.getD_eq_fallback fun inside => listed ((validNext.keys n).mp inside),
            Std.HashMap.getD_eq_fallback fun inside => listed ((valid.keys n).mp inside)]
    · next different => exact ih validNext (by omega)

theorem valid_empty (g : Grammar) :
    Firsts.Valid g (Std.HashMap.ofList (g.nonterminals.map fun n => (n, []))) := by
  have nothing : ∀ n, (Std.HashMap.ofList (g.nonterminals.map fun n =>
      (n, ([] : FirstSet)))).getD n [] = [] := by
    intro n
    by_cases listed : n ∈ g.nonterminals
    · refine Std.HashMap.getD_ofList_of_mem (beq_self_eq_true n) ?_ (mem_map_of_mem listed)
      rw [pairwise_map]
      exact g.nodup_nonterminals.imp fun different => by simpa using different
    · refine Std.HashMap.getD_ofList_of_contains_eq_false ?_
      simpa using listed
  refine ⟨fun n => ?_, fun n => ?_, fun n f listed => ?_⟩
  · rw [Std.HashMap.mem_ofList, map_map, contains_iff_mem]
    simp
  · rw [nothing]
    exact nodup_nil
  · rw [nothing] at listed
    exact (not_mem_nil listed).elim

theorem firsts_exact (g : Grammar) : g.firsts.Valid g ∧ g.firsts.Saturated g :=
  saturateFirsts_saturated (valid_empty g) (by omega)

theorem mem_firstOf : f ∈ firstOf g.firsts symbols ↔ Begins g symbols f :=
  ⟨(firsts_exact g).1.begins_of_mem, (firsts_exact g).2.mem_of_begins (firsts_exact g).1⟩

theorem mem_firstTerminals {lookahead t : String} :
    t ∈ firstTerminals g.firsts symbols lookahead ↔
      Begins g (symbols ++ [lookahead]) (some t) := by
  rw [firstTerminals, mem_eraseDups, mem_filterMap, ← mem_firstOf]
  simp only [id_eq, exists_eq_right]

/-! ## Sentential forms -/

namespace Grammar

/-- One nonterminal of a form is expanded. -/
def Rewrites (g : Grammar) (before after : List String) : Prop :=
  ∃ p ∈ g.productions, ∃ front rest, before = front ++ p.lhs :: rest ∧
    after = front ++ p.rhs ++ rest

/-- The second form can be derived from the first by expanding nonterminals. -/
def Yields (g : Grammar) : List String → List String → Prop :=
  Relation.ReflTransGen g.Rewrites

end Grammar

theorem Begins.exists_yields (begins : Begins g symbols f) :
    ∃ form, g.Yields symbols form ∧ form.head? = f := by
  induction begins with
  | nil => exact ⟨[], .refl, rfl⟩
  | terminal => exact ⟨_, .refl, rfl⟩
  | @expand p rest _ member _ ih =>
    rcases ih with ⟨form, yields, first⟩
    exact ⟨form, .head ⟨p, member, [], rest, rfl, rfl⟩ yields, first⟩

theorem Begins.of_rewrites (begins : Begins g form f) (step : g.Rewrites symbols form) :
    Begins g symbols f := by
  rcases step with ⟨p, member, front, rest, rfl, rfl⟩
  rw [← mem_firstOf, append_assoc, mem_firstOf_append] at begins
  rw [← mem_firstOf, mem_firstOf_append]
  refine begins.imp_right (And.imp_right fun behind => ?_)
  exact mem_firstOf.mpr (.expand member (mem_firstOf.mp behind))

theorem Begins.of_yields (begins : Begins g form f) (yields : g.Yields symbols form) :
    Begins g symbols f := by
  induction yields using Relation.ReflTransGen.head_induction_on with
  | refl => exact begins
  | head step _ ih => exact ih.of_rewrites step

/-- The first sets of a grammar are a fixed point.  For sequences of its symbols they are exactly
the terminals that can begin a form derived from them, with the empty sequence if that can be
derived, unless the empty text is a terminal. -/
theorem firstOf_exact_iff (g : Grammar) :
    g.firsts.Saturated g ∧
      ((∀ symbols : List String, (∀ s ∈ symbols, s ∈ g.symbols) →
        (∀ t, some t ∈ firstOf g.firsts symbols ↔
          t ∈ g.terminals ∧ ∃ rest, g.Yields symbols (t :: rest)) ∧
        (none ∈ firstOf g.firsts symbols ↔ g.Yields symbols [])) ↔
      "" ∉ g.terminals) := by
  have isTerminal : ∀ t, t ∈ g.terminals ↔ t ∈ g.symbols ∧ t ∉ g.nonterminals := by
    simp [Grammar.terminals, Grammar.nonterminalSet, Grammar.nonterminals]
  refine ⟨(firsts_exact g).2, fun exact unnamed => ?_, fun named symbols placed =>
    ⟨fun t => ?_, ?_⟩⟩
  · have own : ∀ s ∈ [""], s ∈ g.symbols := by simpa using ((isTerminal _).mp unnamed).1
    have begins := mem_firstOf.mp (((exact [""] own).1 "").mpr ⟨unnamed, [], .refl⟩)
    exact (begins.isTerminal rfl).2 rfl
  · rw [mem_firstOf]
    constructor
    · intro begins
      rcases begins.exists_yields with ⟨form, yields, first⟩
      rcases head?_eq_some_iff.mp first with ⟨rest, rfl⟩
      have terminal := (begins.isTerminal rfl).1
      refine ⟨?_, rest, yields⟩
      rcases begins.occurs rfl with inside | ⟨p, member, inside⟩
      · exact (isTerminal t).mpr ⟨placed t inside, terminal⟩
      · exact Grammar.mem_terminals_of_rhs member inside terminal
    · rintro ⟨terminal, rest, yields⟩
      have begins : Begins g (t :: rest) (some t) :=
        .terminal ((isTerminal t).mp terminal).2 fun empty => named (empty ▸ terminal)
      exact begins.of_yields yields
  · rw [mem_firstOf]
    constructor
    · intro begins
      rcases begins.exists_yields with ⟨form, yields, first⟩
      exact head?_eq_none_iff.mp first ▸ yields
    · exact Begins.nil.of_yields

end BinaryLayout.LR
