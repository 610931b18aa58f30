import Mathlib.Algebra.GroupWithZero.Nat
import Mathlib.Data.Finset.Powerset
import Mathlib.Data.List.Sort
import BinaryLayout.Proofs.LR.Closure

/-!
# The collection of states

The automaton numbers kernels as it finds them, and works out the states in the order of their
numbers.  A kernel is kept as a list in strict order, so that equal sets of items are equal
lists: hence there are no more kernels than sets of items, and the exploration comes to an end
before its fuel does.

What the rest of the theory needs is put together in `Collection`: the kernel of the start, the
kernels of successors, and the existence of a successor wherever an item has a next symbol.
-/

namespace BinaryLayout.LR

open List

/-! ## Sorted kernels -/

namespace Cursor

/-- The order in which kernels are kept. -/
def le (a b : Cursor) : Bool :=
  (a.order b).isLE

theorem order_eq_compareLex :
    order = compareLex (compareOn rule) (compareLex (compareOn dot) (compareOn lookahead)) :=
  rfl

theorem le_trans {a b c : Cursor} (first : a.le b = true) (second : b.le c = true) :
    a.le c = true := by
  simp only [le, order_eq_compareLex] at first second ⊢
  exact Std.TransCmp.isLE_trans first second

theorem le_total (a b : Cursor) : (a.le b || b.le a) = true := by
  have swapped : b.order a = (a.order b).swap := by
    rw [order_eq_compareLex]
    exact Std.OrientedCmp.eq_swap
  rw [le, le, swapped]
  cases a.order b <;> rfl

theorem le_antisymm {a b : Cursor} (first : a.le b = true) (second : b.le a = true) : a = b := by
  have equal : a.order b = .eq := by
    simp only [le, order_eq_compareLex] at first second ⊢
    exact Std.OrientedCmp.isLE_antisymm first second
  simp only [order, Ordering.then_eq_eq, Std.LawfulEqCmp.compare_eq_iff_eq] at equal
  cases a
  cases b
  simp_all

end Cursor

theorem mem_dedupSorted {α : Type} [BEq α] [LawfulBEq α] {list : List α} {a : α} :
    a ∈ dedupSorted list ↔ a ∈ list := by
  fun_induction dedupSorted list with
  | case1 | case2 => rfl
  | case3 b c rest same ih =>
    rw [ih, eq_of_beq same]
    simp
  | case4 _ _ _ _ ih => rw [mem_cons, ih, ← mem_cons]

theorem pairwise_dedupSorted {α : Type} [BEq α] [LawfulBEq α] {le : α → α → Prop}
    {list : List α} (antisymm : ∀ a b, le a b → le b a → a = b) (sorted : list.Pairwise le) :
    (dedupSorted list).Pairwise fun a b => le a b ∧ a ≠ b := by
  fun_induction dedupSorted list with
  | case1 => exact .nil
  | case2 a => exact pairwise_singleton _ a
  | case3 _ _ _ _ ih => exact ih (pairwise_cons.mp sorted).2
  | case4 a b rest different ih =>
    have ⟨below, others⟩ := pairwise_cons.mp sorted
    refine pairwise_cons.mpr ⟨fun c listed => ?_, ih others⟩
    have member : c ∈ b :: rest := mem_dedupSorted.mp listed
    refine ⟨below c member, ?_⟩
    rintro rfl
    -- An element equal to `a` further on would leave no room for `b` between them.
    rcases mem_cons.mp member with rfl | later
    · exact different (beq_self_eq_true a)
    · have after := (pairwise_cons.mp others).1 a later
      have before := below b mem_cons_self
      exact different (by rw [antisymm _ _ before after, beq_self_eq_true])

/-- A kernel in strict order, whose cursors stand for items of the grammar. -/
structure Blueprint.IsKernel (g : Grammar) (kernel : List Cursor) : Prop where
  sorted : kernel.Pairwise fun a b => a.le b = true ∧ a ≠ b
  items : ∀ c ∈ kernel, ∃ i, (ofGrammar g).item? c = some i ∧ i.IsOf g

namespace Blueprint

variable {g : Grammar}

variable {c d : Cursor} {i : Item} {b : Blueprint} {table : Std.HashMap String (List Cursor)}
  {symbol : String} {items kernel : List Cursor}

theorem IsKernel.isOf (isKernel : IsKernel g kernel) (holds : (ofGrammar g).Holds kernel i) :
    i.IsOf g := by
  rcases holds with ⟨c, listed, itemEq⟩
  rcases isKernel.items c listed with ⟨j, other, isOf⟩
  obtain rfl := Option.some.inj (itemEq.symm.trans other)
  exact isOf

theorem IsKernel.eq_of_mem_iff {left right : List Cursor} (isLeft : IsKernel g left)
    (isRight : IsKernel g right) (same : ∀ c, c ∈ left ↔ c ∈ right) : left = right := by
  have leftNodup : left.Nodup := isLeft.sorted.imp And.right
  have rightNodup : right.Nodup := isRight.sorted.imp And.right
  refine List.Perm.eq_of_pairwise ?_ (isLeft.sorted.imp And.left) (isRight.sorted.imp And.left)
    ((perm_ext_iff_of_nodup leftNodup rightNodup).mpr same)
  intro a b _ _ first second
  exact Cursor.le_antisymm first second

/-- There are no more kernels than sets of items. -/
theorem length_kernels_le {kernels : List (List Cursor)} (distinct : kernels.Nodup)
    (isKernel : ∀ kernel ∈ kernels, IsKernel g kernel) :
    kernels.length ≤ 2 ^ (ofGrammar g).itemCount := by
  have sets : (kernels.map List.toFinset).Nodup := by
    refine (nodup_map_iff_inj_on distinct).mpr fun left first right second equal => ?_
    refine (isKernel left first).eq_of_mem_iff (isKernel right second) fun c => ?_
    rw [← mem_toFinset, equal, mem_toFinset]
  have inside : (kernels.map List.toFinset).toFinset ⊆ (cursors g).toFinset.powerset := by
    intro set listed
    rcases mem_map.mp (mem_toFinset.mp listed) with ⟨kernel, member, rfl⟩
    refine Finset.mem_powerset.mpr fun c inKernel => ?_
    rcases (isKernel kernel member).items c (mem_toFinset.mp inKernel) with ⟨i, itemEq, isOf⟩
    exact mem_toFinset.mpr (mem_cursors itemEq isOf)
  calc kernels.length
      = (kernels.map List.toFinset).toFinset.card := by
        rw [toFinset_card_of_nodup sets, length_map]
    _ ≤ (cursors g).toFinset.powerset.card := Finset.card_le_card inside
    _ = 2 ^ (cursors g).toFinset.card := Finset.card_powerset _
    _ ≤ 2 ^ (ofGrammar g).itemCount := by
        rw [← length_cursors]
        exact Nat.pow_le_pow_right (by omega) (toFinset_card_le _)

/-! ## Successors -/

/-- A cursor moved over its next symbol. -/
def moved (c : Cursor) : Cursor :=
  ⟨c.rule, c.dot + 1, c.lookahead⟩

/-- One more item among those moved, under its next symbol. -/
def addMove (b : Blueprint) (table : Std.HashMap String (List Cursor)) (c : Cursor) :
    Std.HashMap String (List Cursor) :=
  match b.next? c with
  | some symbol => table.insert symbol (moved c :: table.getD symbol [])
  | none => table

/-- The items with some next symbol, moved over it. -/
def movedOver (b : Blueprint) (symbol : String) (items : List Cursor) : List Cursor :=
  (items.filter fun c => b.next? c = some symbol).map moved

theorem mem_movedOver :
    d ∈ b.movedOver symbol items ↔ ∃ c ∈ items, b.next? c = some symbol ∧ d = moved c := by
  simp [movedOver, and_assoc, eq_comm]

theorem getElem?_moves :
    (b.moves items)[symbol]? = if b.movedOver symbol items = [] then none
      else some (b.movedOver symbol items).reverse := by
  have folded : ∀ (list : List Cursor) (table : Std.HashMap String (List Cursor)),
      (list.foldl b.addMove table)[symbol]? =
        if b.movedOver symbol list = [] then table[symbol]?
        else some ((b.movedOver symbol list).reverse ++ table.getD symbol []) := by
    intro list
    induction list with
    | nil => simp [movedOver]
    | cons c rest ih =>
      intro table
      rw [foldl_cons, ih, addMove]
      by_cases own : b.next? c = some symbol
      · simp [movedOver, own]
      · cases next : b.next? c with
        | none => simp [movedOver, next]
        | some name =>
          have other : name ≠ symbol := fun same => own (same ▸ next)
          simp [movedOver, next, other, Std.HashMap.getElem?_insert, Std.HashMap.getD_insert]
  have all := folded items ∅
  rwa [Std.HashMap.getElem?_empty, Std.HashMap.getD_empty, append_nil] at all

/-- The kernel to which a symbol leads: the items with that next symbol, moved over it. -/
structure Leads (b : Blueprint) (items : List Cursor) (symbol : String)
    (kernel : List Cursor) : Prop where
  sorted : kernel.Pairwise fun a b => a.le b = true ∧ a ≠ b
  members : ∀ d, d ∈ kernel ↔ ∃ c ∈ items, b.next? c = some symbol ∧ d = moved c
  used : ∃ c ∈ items, b.next? c = some symbol

theorem leads_of_mem_successors (listed : (symbol, kernel) ∈ b.successors items) :
    b.Leads items symbol kernel := by
  rcases mem_map.mp listed with ⟨⟨_, list⟩, group, equal⟩
  cases equal
  have entry : (b.moves items)[symbol]? = some list :=
    Std.HashMap.mem_toList_iff_getElem?_eq_some.mp (mem_mergeSort.mp group)
  rw [getElem?_moves] at entry
  split at entry
  · cases entry
  · next nonempty =>
      cases entry
      rcases exists_mem_of_ne_nil _ nonempty with ⟨d, member⟩
      rcases mem_movedOver.mp member with ⟨c, inItems, next, _⟩
      have sorted : ((b.movedOver symbol items).reverse.mergeSort Cursor.le).Pairwise fun a b =>
          a.le b = true := by
        refine pairwise_mergeSort ?_ Cursor.le_total _
        exact fun _ _ _ => Cursor.le_trans
      refine ⟨pairwise_dedupSorted (fun _ _ => Cursor.le_antisymm) sorted, fun d => ?_,
        c, inItems, next⟩
      rw [mem_dedupSorted, mem_mergeSort, mem_reverse, mem_movedOver]

theorem exists_successor (listed : c ∈ items) (next : b.next? c = some symbol) :
    ∃ kernel, (symbol, kernel) ∈ b.successors items := by
  have entry : (b.moves items)[symbol]? = some (b.movedOver symbol items).reverse := by
    rw [getElem?_moves, if_neg (ne_nil_of_mem (mem_movedOver.mpr ⟨c, listed, next, rfl⟩))]
  refine ⟨_, mem_map.mpr ⟨(symbol, (b.movedOver symbol items).reverse), ?_, rfl⟩⟩
  exact mem_mergeSort.mpr (Std.HashMap.mem_toList_iff_getElem?_eq_some.mpr entry)

theorem nodup_successors (b : Blueprint) (items : List Cursor) :
    ((b.successors items).map (·.1)).Nodup := by
  rw [successors, map_map]
  refine ((mergeSort_perm _ _).map _).nodup_iff.mpr ?_
  have keys : (b.moves items).toList.map (·.1) = (b.moves items).keys :=
    Std.HashMap.map_fst_toList_eq_keys
  exact keys ▸ Std.HashMap.nodup_keys

theorem next?_of_item (itemEq : b.item? c = some i) : b.next? c = i.next? := by
  rcases item?_eq_some.mp itemEq with ⟨rule, dot, _⟩
  rw [next?, rhs_of_rule rule, dot, Item.next?]

theorem item_of_next (next : b.next? c = some symbol) : ∃ i, b.item? c = some i := by
  have nonempty : b.rhs c.rule ≠ [] := by
    intro empty
    rw [next?, empty] at next
    cases next
  rcases rule_of_rhs_ne_nil nonempty with ⟨p, rule⟩
  exact ⟨⟨p, c.dot, c.lookahead⟩, item?_eq_some.mpr ⟨rule, rfl, rfl⟩⟩

theorem item?_moved (itemEq : b.item? c = some i) : b.item? (moved c) = some i.advance := by
  rcases item?_eq_some.mp itemEq with ⟨rule, dot, lookahead⟩
  exact item?_eq_some.mpr ⟨rule, congrArg (· + 1) dot, lookahead⟩

theorem Leads.holds (leads : b.Leads items symbol kernel) {j : Item} :
    b.Holds kernel j ↔ ∃ i, b.Holds items i ∧ i.next? = some symbol ∧ j = i.advance := by
  constructor
  · rintro ⟨d, listed, itemEq⟩
    rcases (leads.members d).mp listed with ⟨c, member, next, rfl⟩
    rcases item_of_next next with ⟨i, before⟩
    refine ⟨i, ⟨c, member, before⟩, (next?_of_item before).symm.trans next, ?_⟩
    exact Option.some.inj (itemEq.symm.trans (item?_moved before))
  · rintro ⟨i, ⟨c, member, before⟩, next, rfl⟩
    refine ⟨moved c, (leads.members _).mpr ⟨c, member, ?_, rfl⟩, item?_moved before⟩
    rwa [next?_of_item before]

theorem Leads.isKernel (leads : (ofGrammar g).Leads items symbol kernel)
    (isOf : ∀ i, (ofGrammar g).Holds items i → i.IsOf g) : IsKernel g kernel := by
  refine ⟨leads.sorted, fun d listed => ?_⟩
  rcases (leads.members d).mp listed with ⟨c, member, next, rfl⟩
  rcases item_of_next next with ⟨i, before⟩
  refine ⟨i.advance, item?_moved before, ?_⟩
  have ⟨production, _, lookahead⟩ := isOf i ⟨c, member, before⟩
  rw [next?_of_item before] at next
  have inside := (List.getElem?_eq_some_iff.mp next).1
  exact ⟨production, inside, lookahead⟩

theorem isKernel_startKernel (terminal : endSymbol ∉ g.nonterminals) :
    IsKernel g (ofGrammar g).startKernel := by
  refine ⟨pairwise_singleton _ _, fun c listed => ?_⟩
  obtain rfl := mem_singleton.mp listed
  refine ⟨⟨g.seed, 0, endSymbol⟩, item?_eq_some.mpr ⟨rules_last g, rfl, rfl⟩, ?_⟩
  exact ⟨g.seed_mem_productions, Nat.zero_le _, Grammar.mem_terminals.mpr ⟨.inl rfl, terminal⟩⟩

theorem holds_startKernel :
    (ofGrammar g).Holds (ofGrammar g).startKernel i ↔ i = ⟨g.seed, 0, endSymbol⟩ := by
  have itemEq : (ofGrammar g).item? ⟨(ofGrammar g).rules.size - 1, 0, endSymbol⟩ =
      some ⟨g.seed, 0, endSymbol⟩ := item?_eq_some.mpr ⟨rules_last g, rfl, rfl⟩
  constructor
  · rintro ⟨c, listed, holds⟩
    obtain rfl := mem_singleton.mp listed
    exact Option.some.inj (holds.symm.trans itemEq)
  · rintro rfl
    exact ⟨_, mem_singleton_self _, itemEq⟩

end Blueprint

/-! ## Exploration -/

namespace Survey

open Blueprint

variable {g : Grammar}

variable {s : Survey} {edges : List (String × Nat)} {successors : List (String × List Cursor)}

/-- A kernel has one number, and the other way round. -/
structure Numbered (g : Grammar) (s : Survey) : Prop where
  numbers : ∀ (kernel : List Cursor) (n : Nat),
    s.numbers[kernel]? = some n ↔ s.kernels[n]? = some kernel
  isKernel : ∀ kernel ∈ s.kernels, IsKernel g kernel

/-- Later in the exploration, kernels keep their numbers. -/
def Extends (s s' : Survey) : Prop :=
  ∀ (n : Nat) (kernel : List Cursor), s.kernels[n]? = some kernel → s'.kernels[n]? = some kernel

theorem number_spec {kernel : List Cursor} (numbered : Numbered g s)
    (isKernel : IsKernel g kernel) :
    Numbered g (s.number kernel).1 ∧ Extends s (s.number kernel).1 ∧
      (s.number kernel).1.kernels[(s.number kernel).2]? = some kernel ∧
      ∀ m < (s.number kernel).1.kernels.size, m < s.kernels.size ∨ m = (s.number kernel).2 := by
  unfold number
  split
  · next n found =>
      exact ⟨numbered, fun _ _ old => old, (numbered.numbers kernel n).mp found,
        fun m less => .inl less⟩
  · next missing =>
      refine ⟨⟨fun other n => ?_, fun other listed => ?_⟩, fun n other found => ?_, ?_,
        fun m less => ?_⟩
      · have old := numbered.numbers other n
        have unused : s.kernels[s.kernels.size]? = none := Array.getElem?_size
        dsimp only
        rw [Std.HashMap.getElem?_insert, Array.getElem?_push]
        by_cases same : kernel = other
        · subst same
          rw [if_pos (beq_self_eq_true kernel), Option.some.injEq]
          split
          · next last => simp [last]
          · next earlier => simp [← old, missing, Ne.symm earlier]
        · rw [if_neg (by simpa using same), old]
          split
          · next last => simp [last, same]
          · rfl
      · rcases Array.mem_push.mp listed with old | rfl
        · exact numbered.isKernel other old
        · exact isKernel
      · have inside := (Array.getElem?_eq_some_iff.mp found).1
        rw [Array.getElem?_push, if_neg (by omega), found]
      · simp
      · rw [Array.size_push] at less
        exact Nat.lt_succ_iff_lt_or_eq.mp less

/-- The edges lead to the successors of a state, in their order. -/
def Match (s : Survey) (edges : List (String × Nat)) (successors : List (String × List Cursor)) :
    Prop :=
  edges.map (fun edge => (edge.1, s.kernels[edge.2]?)) =
    successors.map fun successor => (successor.1, some successor.2)

theorem Match.kernel (matched : Match s edges successors) {edge : String × Nat}
    (listed : edge ∈ edges) :
    ∃ kernel, s.kernels[edge.2]? = some kernel ∧ (edge.1, kernel) ∈ successors := by
  have entry : (edge.1, s.kernels[edge.2]?) ∈ successors.map fun successor =>
      (successor.1, some successor.2) := by
    rw [← matched]
    exact mem_map_of_mem listed
  rcases mem_map.mp entry with ⟨⟨_, kernel⟩, member, equal⟩
  rcases Prod.mk.inj equal with ⟨rfl, found⟩
  exact ⟨kernel, found.symm, member⟩

theorem Match.symbols (matched : Match s edges successors) :
    edges.map (·.1) = successors.map (·.1) := by
  have first := congrArg (List.map (·.1)) matched
  rwa [map_map, map_map] at first

theorem Match.edge (matched : Match s edges successors) {symbol : String} {kernel : List Cursor}
    (listed : (symbol, kernel) ∈ successors) : ∃ n, (symbol, n) ∈ edges := by
  have entry : symbol ∈ edges.map (·.1) := matched.symbols ▸ mem_map_of_mem listed
  rcases mem_map.mp entry with ⟨⟨_, n⟩, member, rfl⟩
  exact ⟨n, member⟩

/-- The edges stay right when more kernels are numbered. -/
theorem Match.later {s' : Survey} (matched : Match s edges successors)
    (later : ∀ (n : Nat) (kernel : List Cursor),
      s.kernels[n]? = some kernel → s'.kernels[n]? = some kernel) :
    Match s' edges successors := by
  rw [Match, ← matched]
  refine map_congr_left fun edge listed => ?_
  rcases matched.kernel listed with ⟨kernel, found, _⟩
  rw [found, later _ _ found]

theorem numberAll_spec (edges : List (String × Nat)) (numbered : Numbered g s)
    (isKernel : ∀ successor ∈ successors, IsKernel g successor.2) :
    ∃ new, (s.numberAll edges successors).2 = edges.reverse ++ new ∧
      Numbered g (s.numberAll edges successors).1 ∧
      Extends s (s.numberAll edges successors).1 ∧
      Match (s.numberAll edges successors).1 new successors ∧
      ∀ m < (s.numberAll edges successors).1.kernels.size,
        m < s.kernels.size ∨ ∃ symbol, (symbol, m) ∈ new := by
  induction successors generalizing s edges with
  | nil =>
    exact ⟨[], (append_nil _).symm, numbered, fun _ _ old => old, rfl, fun m less => .inl less⟩
  | cons successor rest ih =>
    have ⟨first, others⟩ := forall_mem_cons.mp isKernel
    rcases number_spec numbered first with ⟨next, extended, found, one⟩
    rcases ih ((successor.1, (s.number successor.2).2) :: edges) next others with
      ⟨new, edgesEq, final, further, matched, all⟩
    refine ⟨(successor.1, (s.number successor.2).2) :: new, ?_, final,
      fun n kernel old => further n kernel (extended n kernel old), ?_, fun m less => ?_⟩
    · rw [numberAll, edgesEq, reverse_cons, append_assoc]
      rfl
    · rw [numberAll, Match, map_cons, map_cons, matched, further _ _ found]
    · rcases all m less with earlier | ⟨symbol, listed⟩
      · rcases one m earlier with old | rfl
        · exact .inl old
        · exact .inr ⟨_, mem_cons_self⟩
      · exact .inr ⟨symbol, mem_cons_of_mem _ listed⟩

theorem numberAll_states {next : Survey} {result : List (String × Nat)}
    (run : s.numberAll edges successors = (next, result)) : next.states = s.states := by
  induction successors generalizing s edges with
  | nil =>
    cases run
    rfl
  | cons _ _ ih =>
    rw [numberAll] at run
    rw [ih run]
    split <;> rfl

/-- A state that has been worked out. -/
structure Done (g : Grammar) (s : Survey) (q : Nat) (state : State) : Prop where
  kernel : s.kernels[q]? = some state.kernel
  items : ∀ i, (ofGrammar g).Holds state.items i ↔
    Closure g ((ofGrammar g).Holds state.kernel) i
  edges : Match s state.edges ((ofGrammar g).successors state.items)

/-- The invariant of the exploration. -/
structure Consistent (g : Grammar) (s : Survey) : Prop extends Numbered g s where
  start : s.kernels[0]? = some (ofGrammar g).startKernel
  behind : s.states.size ≤ s.kernels.size
  done : ∀ (q : Nat) (state : State), s.states[q]? = some state → Done g s q state
  found : ∀ n < s.kernels.size, n = 0 ∨ ∃ q state symbol,
    q < n ∧ s.states[q]? = some state ∧ (symbol, n) ∈ state.edges

theorem Consistent.nodup (consistent : Consistent g s) : s.kernels.toList.Nodup := by
  rw [nodup_iff_getElem?_ne_getElem?]
  intro m n less inside equal
  rw [Array.getElem?_toList, Array.getElem?_toList] at equal
  rw [Array.length_toList] at inside
  have found : s.kernels[n]? = some s.kernels[n] := Array.getElem?_eq_getElem inside
  have first := (consistent.numbers _ _).mpr (equal.trans found)
  have second := (consistent.numbers _ _).mpr found
  have same := Option.some.inj (first.symm.trans second)
  omega

theorem Consistent.size_le (consistent : Consistent g s) :
    s.kernels.size ≤ 2 ^ (ofGrammar g).itemCount := by
  rw [← Array.length_toList]
  exact length_kernels_le consistent.nodup fun kernel listed =>
    consistent.isKernel kernel (Array.mem_toList_iff.mp listed)

theorem Consistent.step {next : Survey} {kernel items : List Cursor} (consistent : Consistent g s)
    (found : s.kernels[s.states.size]? = some kernel)
    (closure : ∀ i, (ofGrammar g).Holds items i ↔ Closure g ((ofGrammar g).Holds kernel) i)
    (run : s.numberAll [] ((ofGrammar g).successors items) = (next, edges)) :
    Consistent g { next with states := next.states.push ⟨kernel, items, edges⟩ } := by
  have isKernel := consistent.isKernel kernel (Array.mem_of_getElem? found)
  have isOf : ∀ i, (ofGrammar g).Holds items i → i.IsOf g := fun i holds =>
    ((closure i).mp holds).isOf fun _ => isKernel.isOf
  have successors : ∀ successor ∈ (ofGrammar g).successors items, IsKernel g successor.2 :=
    fun ⟨_, _⟩ listed => (leads_of_mem_successors listed).isKernel isOf
  rcases numberAll_spec [] consistent.toNumbered successors with
    ⟨new, edgesEq, numbered, later, matched, all⟩
  simp only [run, reverse_nil, nil_append] at edgesEq numbered later matched all
  subst edgesEq
  have still := later _ _ found
  have states := numberAll_states run
  have inside := (Array.getElem?_eq_some_iff.mp found).1
  refine ⟨⟨numbered.numbers, numbered.isKernel⟩, later _ _ consistent.start, ?_, ?_, ?_⟩
  · rw [Array.size_push, states]
    exact (Array.getElem?_eq_some_iff.mp still).1
  · intro q state listed
    rw [Array.getElem?_push, states] at listed
    split at listed
    · next last =>
        cases listed
        exact ⟨by rw [last]; exact still, closure, matched⟩
    · have old := consistent.done q state listed
      exact ⟨later _ _ old.kernel, old.items, old.edges.later later⟩
  · intro n less
    by_cases old : n < s.kernels.size
    · rcases consistent.found n old with start | ⟨q, state, symbol, earlier, doneAt, listed⟩
      · exact .inl start
      · refine .inr ⟨q, state, symbol, earlier, ?_, listed⟩
        have placed := (Array.getElem?_eq_some_iff.mp doneAt).1
        rw [Array.getElem?_push, states, if_neg (by omega), doneAt]
    · rcases all n less with other | ⟨symbol, listed⟩
      · exact absurd other old
      · refine .inr ⟨s.states.size, ⟨kernel, items, edges⟩, symbol, by omega, ?_, listed⟩
        rw [Array.getElem?_push, states, if_pos rfl]

/-- The exploration works out every kernel that it numbers. -/
theorem explore_spec {fuel : Nat} {known : Closures} (exact : known.Exact (ofGrammar g))
    (consistent : Consistent g s)
    (enough : 2 ^ (ofGrammar g).itemCount ≤ fuel + s.states.size) :
    Consistent g (explore (ofGrammar g) fuel known s) ∧
      (explore (ofGrammar g) fuel known s).states.size =
        (explore (ofGrammar g) fuel known s).kernels.size := by
  induction fuel generalizing s known with
  | zero =>
    have few := consistent.size_le
    have behind := consistent.behind
    exact ⟨consistent, by rw [explore]; omega⟩
  | succ fuel ih =>
    rw [explore]
    split
    · next missing =>
        have beyond := Array.getElem?_eq_none_iff.mp missing
        exact ⟨consistent, Nat.le_antisymm consistent.behind beyond⟩
    · next kernel found =>
        have isKernel := consistent.isKernel kernel (Array.mem_of_getElem? found)
        rcases holds_closures exact isKernel.items with ⟨closure, next⟩
        rcases run : s.numberAll [] ((ofGrammar g).successors
          ((ofGrammar g).closures kernel ∅ [] known).1) with ⟨later, edges⟩
        have continued := ih next (consistent.step found closure run)
          (by rw [Array.size_push, numberAll_states run]; omega)
        simpa only [run] using continued

end Survey

/-! ## The collection -/

/-- Edges lead from the start to a state. -/
inductive Reachable (edge : Nat → String → Nat → Prop) : Nat → Prop
  | start : Reachable edge 0
  | step {q n : Nat} {symbol : String} (reachable : Reachable edge q) (found : edge q symbol n) :
      Reachable edge n

/-- The states of the automaton, as sets of items, and the edges between them. -/
structure Collection (g : Grammar) where
  kernel : Nat → Item → Prop
  edge : Nat → String → Nat → Prop
  start : ∀ i, kernel 0 i ↔ i = ⟨g.seed, 0, endSymbol⟩
  isOf : ∀ q i, kernel q i → i.IsOf g
  target : ∀ q symbol n, edge q symbol n → ∀ j, kernel n j ↔
    ∃ i, Closure g (kernel q) i ∧ i.next? = some symbol ∧ j = i.advance
  deterministic : ∀ q symbol n m, edge q symbol n → edge q symbol m → n = m
  reachable : ∀ q i, kernel q i → Reachable edge q
  used : ∀ q symbol n, edge q symbol n → ∃ i, Closure g (kernel q) i ∧ i.next? = some symbol
  progress : ∀ q i symbol, Closure g (kernel q) i → i.next? = some symbol →
    ∃ n, edge q symbol n

namespace Blueprint

open Survey

variable {g : Grammar}

variable {q n : Nat} {state : State}

/-- The exploration from the start on. -/
def survey (g : Grammar) : Survey :=
  let start := (ofGrammar g).startKernel
  explore (ofGrammar g) (2 ^ (ofGrammar g).itemCount) {} ⟨#[start], .ofList [(start, 0)], #[]⟩

theorem survey_spec (terminal : endSymbol ∉ g.nonterminals) :
    Consistent g (survey g) ∧ (survey g).states.size = (survey g).kernels.size := by
  let start := (ofGrammar g).startKernel
  have consistent : Consistent g ⟨#[start], .ofList [(start, 0)], #[]⟩ := by
    refine ⟨⟨fun kernel n => ?_, fun kernel listed => ?_⟩, rfl, Nat.zero_le _,
      fun q state found => ?_, fun n less => .inl (by simpa using less)⟩
    · rw [Std.HashMap.ofList_singleton, Std.HashMap.getElem?_insert, Std.HashMap.getElem?_empty]
      by_cases same : start = kernel
      · subst same
        cases n <;> simp
      · cases n <;> simp [same]
    · obtain rfl : kernel = start := by simpa using listed
      exact isKernel_startKernel terminal
    · simp at found
  exact explore_spec (Closures.exact_empty _) consistent (Nat.le_add_right _ _)

def KernelItem (g : Grammar) (q : Nat) (i : Item) : Prop :=
  ∃ state, (survey g).states[q]? = some state ∧ (ofGrammar g).Holds state.kernel i

def Edge (g : Grammar) (q : Nat) (symbol : String) (n : Nat) : Prop :=
  ∃ state, (survey g).states[q]? = some state ∧ (symbol, n) ∈ state.edges

theorem kernelItem_eq (found : (survey g).states[q]? = some state) :
    KernelItem g q = (ofGrammar g).Holds state.kernel := by
  funext i
  simp [KernelItem, found]

theorem edge_iff {symbol : String} (found : (survey g).states[q]? = some state) :
    Edge g q symbol n ↔ (symbol, n) ∈ state.edges := by
  simp [Edge, found]

section Surveyed

variable (terminal : endSymbol ∉ g.nonterminals)

include terminal

theorem done_of_found (found : (survey g).states[q]? = some state) :
    Done g (survey g) q state :=
  (survey_spec terminal).1.done q state found

theorem state_of_kernel {kernel : List Cursor} (found : (survey g).kernels[n]? = some kernel) :
    ∃ state, (survey g).states[n]? = some state ∧ state.kernel = kernel := by
  have inside := (Array.getElem?_eq_some_iff.mp found).1
  rw [← (survey_spec terminal).2] at inside
  have listed := Array.getElem?_eq_getElem inside
  have own := (done_of_found terminal listed).kernel
  exact ⟨_, listed, Option.some.inj (own.symm.trans found)⟩

theorem closure_kernelItem {i : Item} (found : (survey g).states[q]? = some state) :
    Closure g (KernelItem g q) i ↔ (ofGrammar g).Holds state.items i := by
  rw [kernelItem_eq found, (done_of_found terminal found).items]

theorem distinct_edges (found : (survey g).states[q]? = some state) :
    (state.edges.map (·.1)).Nodup := by
  rw [(done_of_found terminal found).edges.symbols]
  exact nodup_successors _ _

/-- Every state was found from one with a smaller number, and so from the start. -/
theorem reachable_of_survey (inside : q < (survey g).kernels.size) : Reachable (Edge g) q := by
  induction q using Nat.strong_induction_on with
  | _ q ih =>
    rcases (survey_spec terminal).1.found q inside with
      rfl | ⟨before, previous, symbol, less, doneAt, listed⟩
    · exact .start
    · exact .step (ih before less (by omega)) ⟨previous, doneAt, listed⟩

end Surveyed

/-- The states of the blueprint of a grammar. -/
def collection (g : Grammar) (terminal : endSymbol ∉ g.nonterminals) : Collection g where
  kernel := KernelItem g
  edge := Edge g
  start i := by
    rcases state_of_kernel terminal (survey_spec terminal).1.start with ⟨state, found, kernel⟩
    rw [kernelItem_eq found, kernel, holds_startKernel]
  isOf q i := by
    rintro ⟨state, found, holds⟩
    have own := (done_of_found terminal found).kernel
    exact ((survey_spec terminal).1.isKernel _ (Array.mem_of_getElem? own)).isOf holds
  target q symbol n := by
    rintro ⟨state, found, listed⟩ j
    rcases (done_of_found terminal found).edges.kernel listed with ⟨_, numbered, successor⟩
    rcases state_of_kernel terminal numbered with ⟨next, nextFound, rfl⟩
    rw [kernelItem_eq nextFound, (leads_of_mem_successors successor).holds]
    simp only [closure_kernelItem terminal found]
  deterministic q symbol n m := by
    rintro ⟨state, found, listed⟩ second
    rw [edge_iff found] at second
    exact congrArg Prod.snd
      (inj_on_of_nodup_map (distinct_edges terminal found) listed second rfl)
  reachable q i := by
    rintro ⟨state, found, _⟩
    have inside := (Array.getElem?_eq_some_iff.mp found).1
    rw [(survey_spec terminal).2] at inside
    exact reachable_of_survey terminal inside
  used q symbol n := by
    rintro ⟨state, found, listed⟩
    rcases (done_of_found terminal found).edges.kernel listed with ⟨kernel, _, successor⟩
    rcases (leads_of_mem_successors successor).used with ⟨c, member, next⟩
    rcases item_of_next next with ⟨i, itemEq⟩
    refine ⟨i, (closure_kernelItem terminal found).mpr ⟨c, member, itemEq⟩, ?_⟩
    rw [← next?_of_item itemEq, next]
  progress q i symbol inside next := by
    rcases inside.exists_kernel with ⟨_, state, found, _⟩
    rcases (closure_kernelItem terminal found).mp inside with ⟨c, listed, itemEq⟩
    rcases exists_successor listed ((next?_of_item itemEq).trans next) with ⟨_, successor⟩
    rcases (done_of_found terminal found).edges.edge successor with ⟨n, edge⟩
    exact ⟨n, state, found, edge⟩

end Blueprint

end BinaryLayout.LR
