import Mathlib.Data.List.Basic
import BinaryLayout.Proofs.LR.Derivation

/-!
# The locations of trees

A node is located from the first known location below it to the last, which fails if the one ends
before the other starts.  It never does when the known locations of the input are in order.
-/

namespace BinaryLayout.LR

open List

variable {tokens : List Token} {children : List Tree} {left right : Tree → List Location}

/-- A span from the start of the first location to the end of the second is possible. -/
def UpTo (l m : Location) : Prop :=
  (⟨l.start, m.stop, false, false⟩ : Location).IsValid

def knownLocations (tokens : List Token) : List Location :=
  tokens.filterMap fun t => t.location.filter Location.isKnown

/-- No known location ends before itself or an earlier one starts. -/
def InOrder (tokens : List Token) : Prop :=
  (knownLocations tokens).Pairwise UpTo ∧ ∀ l ∈ knownLocations tokens, UpTo l l

instance (l m : Location) : Decidable (UpTo l m) :=
  inferInstanceAs (Decidable (Location.IsValid _))

instance (tokens : List Token) : Decidable (InOrder tokens) :=
  inferInstanceAs (Decidable (_ ∧ _))

theorem InOrder.sublist {tokens others : List Token} (inOrder : InOrder tokens)
    (sublist : others.Sublist tokens) : InOrder others := by
  have fewer := sublist.filterMap fun t : Token => t.location.filter Location.isKnown
  exact ⟨inOrder.1.sublist fewer, fun l listed => inOrder.2 l (fewer.subset listed)⟩

theorem InOrder.upTo (inOrder : InOrder tokens) {first last : Location}
    (head : (knownLocations tokens).head? = some first)
    (tail : (knownLocations tokens).getLast? = some last) : UpTo first last := by
  rcases inOrder with ⟨pairwise, each⟩
  cases known : knownLocations tokens with
  | nil => simp [known] at head
  | cons l rest =>
    rw [known] at head tail pairwise each
    obtain rfl := Option.some.inj head
    cases rest with
    | nil =>
      obtain rfl := Option.some.inj tail
      exact each l mem_cons_self
    | cons =>
      rw [getLast?_cons_cons] at tail
      exact (pairwise_cons.mp pairwise).1 last (mem_of_getLast? tail)

theorem knownLocations_append_none {others : List Token}
    (unlocated : ∀ t ∈ others, t.location = none) :
    knownLocations (tokens ++ others) = knownLocations tokens := by
  rw [knownLocations, filterMap_append]
  have nothing : others.filterMap (fun t => t.location.filter Location.isKnown) = [] :=
    filterMap_eq_nil_iff.mpr fun t listed => by rw [unlocated t listed]; rfl
  rw [nothing, append_nil]
  rfl

def Tree.known (tree : Tree) : Option Location :=
  tree.location.filter Location.isKnown

/-- A tree is located from its first known token to its last. -/
structure Spans (tree : Tree) : Prop where
  start : tree.known.map Location.start = (knownLocations tree.tokens).head?.map Location.start
  stop : tree.known.map Location.stop = (knownLocations tree.tokens).getLast?.map Location.stop

theorem spans_leaf (t : Token) : Spans (.leaf t) := by
  have listed : knownLocations (Tree.leaf t).tokens = (Tree.leaf t).known.toList := by
    rw [Tree.tokens, knownLocations, filterMap_cons, filterMap_nil, Tree.known, Tree.location]
    cases t.location.filter Location.isKnown <;> rfl
  constructor
  · rw [listed]
    cases (Tree.leaf t).known <;> rfl
  · rw [listed]
    cases (Tree.leaf t).known <;> rfl

theorem knownLocations_flatMap (children : List Tree) :
    knownLocations (children.flatMap Tree.tokens) =
      children.flatMap fun child => knownLocations child.tokens := by
  rw [knownLocations, filterMap_flatMap]
  rfl

theorem ends_flatMap_congr (each : ∀ child ∈ children,
      (left child).head?.map Location.start = (right child).head?.map Location.start ∧
        (left child).getLast?.map Location.stop = (right child).getLast?.map Location.stop) :
    (children.flatMap left).head?.map Location.start =
        (children.flatMap right).head?.map Location.start ∧
      (children.flatMap left).getLast?.map Location.stop =
        (children.flatMap right).getLast?.map Location.stop := by
  induction children with
  | nil => exact ⟨rfl, rfl⟩
  | cons _ _ ih =>
    have ⟨own, others⟩ := forall_mem_cons.mp each
    simp only [flatMap_cons, head?_append, getLast?_append, Option.map_or, own, ih others, and_self]

/-- The known locations of trees begin and end where those of their tokens do. -/
theorem known_flatMap (spans : ∀ child ∈ children, Spans child) :
    (children.flatMap (·.known.toList)).head?.map Location.start =
        (knownLocations (children.flatMap Tree.tokens)).head?.map Location.start ∧
      (children.flatMap (·.known.toList)).getLast?.map Location.stop =
        (knownLocations (children.flatMap Tree.tokens)).getLast?.map Location.stop := by
  rw [knownLocations_flatMap]
  refine ends_flatMap_congr fun child listed => ?_
  rw [← (spans child listed).start, ← (spans child listed).stop]
  cases child.known <;> exact ⟨rfl, rfl⟩

/-- Trees in order can be put below one node, which spans them. -/
theorem merge_spans (p : Production) (spans : ∀ child ∈ children, Spans child)
    (inOrder : InOrder (children.flatMap Tree.tokens)) :
    ∃ location, Location.merge (children.map Tree.location) = .ok location ∧
      Spans (.node p children location) := by
  have knownEq : (children.map Tree.location).filterMap (fun l? => l?.filter Location.isKnown) =
      children.flatMap (·.known.toList) := by
    rw [filterMap_map, filterMap_eq_flatMap_toList]
    rfl
  have ⟨heads, lasts⟩ := known_flatMap spans
  rw [Location.merge, knownEq]
  cases head : (children.flatMap (·.known.toList)).head? with
  | none =>
    rw [head?_eq_none_iff.mp head] at heads lasts
    refine ⟨none, rfl, ?_, ?_⟩
    · rw [Tree.tokens_node, ← heads]
      rfl
    · rw [Tree.tokens_node, ← lasts]
      rfl
  | some first =>
    have nonempty := ne_nil_of_mem (mem_of_head? head)
    have tail := getLast?_eq_some_getLast nonempty
    generalize (children.flatMap (·.known.toList)).getLast nonempty = last at tail
    rw [head] at heads
    rw [tail] at lasts
    rcases Option.map_eq_some_iff.mp heads.symm with ⟨_, headToken, startEq⟩
    rcases Option.map_eq_some_iff.mp lasts.symm with ⟨_, tailToken, stopEq⟩
    have valid := inOrder.upTo headToken tailToken
    rw [UpTo, startEq, stopEq] at valid
    have known : first.isKnown = true := by
      rcases mem_flatMap.mp (mem_of_head? head) with ⟨child, _, listed⟩
      exact (Option.mem_filter_iff.mp (Option.mem_toList.mp listed)).2
    let merged : Location := ⟨first.start, last.stop,
      (children.flatMap (·.known.toList)).any (·.isDisjoint),
      (children.flatMap (·.known.toList)).any (·.isSynthetic)⟩
    have validMerged : merged.IsValid := valid
    have knownMerged : (some merged).filter Location.isKnown = some merged := by
      rw [Option.filter_some, if_pos (show merged.isKnown = true from known)]
    refine ⟨some merged, ?_, ?_, ?_⟩
    · simp only [tail]
      exact if_pos validMerged
    · rw [Tree.tokens_node, ← heads, Tree.known, Tree.location, knownMerged]
      rfl
    · rw [Tree.tokens_node, ← lasts, Tree.known, Tree.location, knownMerged]
      rfl

end BinaryLayout.LR
