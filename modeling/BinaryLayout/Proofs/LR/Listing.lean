import BinaryLayout.LR.Listing
import Mathlib.Data.List.Nodup
import Mathlib.Data.List.Perm.Subperm

/-!
# Identifiers in source code

Main statement: everything that is bound gets an identifier of its own, which is no keyword and no
name to avoid.  Some names that the function uses are not among those to avoid, and are given out
when there is much to bind.
-/

namespace BinaryLayout.LR

open List

theorem identifierTail_injective : Function.Injective identifierTail := by
  have digit : ∀ i < 63, identifierChars.idxOf (identifierChars.getD i '_') = i := by
    decide +kernel
  -- the number is read back from its digits
  refine Function.LeftInverse.injective
    (g := foldr (fun c n => identifierChars.idxOf c + 63 * n) 0) fun n => ?_
  fun_induction identifierTail n with
  | case1 => rfl
  | case2 n _ ih => rw [foldr_cons, ih, digit _ (Nat.mod_lt _ (by decide)), Nat.mod_add_div]

theorem identifier_injective : Function.Injective identifier := by
  have start : ∀ i < 52, identifierStarts.idxOf (identifierStarts.getD i 'a') = i := by
    decide +kernel
  intro a b same
  rcases cons.inj (String.ofList_injective same) with ⟨first, tail⟩
  have remainders : a % 52 = b % 52 := by
    rw [← start _ (Nat.mod_lt a (by decide)), first, start _ (Nat.mod_lt b (by decide))]
  rw [← Nat.div_add_mod a 52, identifierTail_injective tail, remainders, Nat.div_add_mod]

theorem length_freeIdentifiers (count : Nat) : (freeIdentifiers count).length = count := by
  let names := (range (count + usedIdentifiers.length + Text.scriptKeywords.length)).map identifier
  have once : names.Nodup := nodup_range.map identifier_injective
  -- those that are not free are distinct, so there are no more of them than names to avoid
  have taken : (names.filter (!isFree ·)).length ≤
      (usedIdentifiers ++ Text.scriptKeywords).length := by
    refine ((once.filter _).subperm fun name isTaken => ?_).length_le
    have notFree := (mem_filter.1 isTaken).2
    simp only [isFree, contains_eq_mem] at notFree
    grind
  have total := length_eq_length_filter_add (l := names) isFree
  rw [length_append] at taken
  rw [length_map, length_range] at total
  rw [freeIdentifiers, length_take]
  change min count (names.filter isFree).length = count
  omega

theorem mem_freeIdentifiers {i count : Nat} (below : i < count) (free : isFree (identifier i)) :
    identifier i ∈ freeIdentifiers count := by
  have first : identifier i ∈ ((range count).map identifier).filter isFree :=
    mem_filter.2 ⟨mem_map_of_mem (mem_range.2 below), free⟩
  have few : (((range count).map identifier).filter isFree).length ≤ count :=
    Nat.le_trans (length_filter_le ..) (by simp)
  rw [freeIdentifiers, Nat.add_assoc, range_add, map_append, filter_append, take_append,
    take_of_length_le few]
  exact mem_append_left _ first

theorem chooseIdentifiers_apart (bound : List Bound) (draft : Draft) :
    let names := chooseIdentifiers bound draft
    (names.map (·.1)).Perm bound ∧ (names.map (·.2)).Nodup ∧
      (∀ name ∈ names.map (·.2), name ∉ usedIdentifiers ++ Text.scriptKeywords) ∧
      ∀ used ∈ [(23, "x"), (62470, "set"), (174523, "lr1")], used.1 < bound.length →
        used.2 ∈ names.map (·.2) := by
  intro names
  have enough := length_freeIdentifiers bound.length
  have served : names.map (·.1) = _ := map_fst_zip (by simp [enough])
  have given : names.map (·.2) = _ := map_snd_zip (by simp [enough])
  rw [served, given]
  refine ⟨?_, ?_, fun name isName => ?_, fun used isUsed many => ?_⟩
  · exact ((mergeSort_perm ..).map _).trans (by simp [Function.comp_def])
  · exact ((nodup_range.map identifier_injective).filter _).sublist (take_sublist ..)
  · simpa [isFree] using (mem_filter.1 (mem_of_mem_take isName)).2
  · have isFree : ∀ used ∈ [(23, "x"), (62470, "set"), (174523, "lr1")],
        identifier used.1 = used.2 ∧ isFree (identifier used.1) := by
      decide +kernel
    rw [← (isFree used isUsed).1]
    exact mem_freeIdentifiers many (isFree used isUsed).2

end BinaryLayout.LR
