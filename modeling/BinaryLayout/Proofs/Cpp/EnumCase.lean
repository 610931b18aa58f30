import BinaryLayout.Cpp.EnumCase
import Mathlib.Data.List.DropRight

/-!
# Splitting lists of styles

Where a piece begins, a text is what is on the left, the piece and what is on the right.  The
places that the loops come to are then lengths of parts of the text.

Main statement: the spans cut out the pieces between the commas, without white space at their
ends, but for a blank last piece after a comma.
-/

namespace BinaryLayout.Cpp

open List Text

variable {left piece right : List Char}

/-- The pieces of a text that stands after a comma or not.  A blank last one is left out if there is
a comma before it. -/
def keptPieces (afterComma : Prop) [Decidable afterComma] (s : List Char) : List (List Char) :=
  let pieces := s.splitOn ','
  if pieces.getLast?.any (·.all isBlank) ∧ (afterComma ∨ ',' ∈ s) then pieces.dropLast else pieces

theorem keptPieces_append (afterComma : Prop) [Decidable afterComma] (noComma : ',' ∉ piece) :
    keptPieces afterComma (piece ++ ',' :: right) = piece :: keptPieces True right := by
  have split : (piece ++ ',' :: right).splitOn ',' = piece :: right.splitOn ',' := by
    rw [splitOn_eq_splitOnP, splitOnP_append_cons_of_forall_mem (by grind) _ rfl,
      splitOn_eq_splitOnP]
  rcases exists_cons_of_ne_nil (splitOn_ne_nil ',' right) with ⟨next, rest, isSplit⟩
  simp only [keptPieces, split, isSplit]
  split <;> simp_all

theorem keptPieces_of_not_mem (afterComma : Prop) [Decidable afterComma] (noComma : ',' ∉ right) :
    keptPieces afterComma right = if right.all isBlank ∧ afterComma then [] else [right] := by
  simp [keptPieces, splitOn_eq_singleton noComma, noComma]

theorem commaFrom_append (noComma : ',' ∉ piece) (next : ∀ c ∈ right.head?, c = ',') :
    commaFrom (left ++ (piece ++ right)) left.length = left.length + piece.length := by
  rw [commaFrom, drop_left, takeWhile_append_of_pos (by grind)]
  cases right <;> simp_all

theorem skipBlanks_append :
    skipBlanks (left ++ (piece ++ right)) left.length (left.length + piece.length) =
      left.length + (piece.takeWhile isBlank).length := by
  induction piece generalizing left with
  | nil => simp [skipBlanks]
  | cons c piece ih =>
    have here : (left ++ (c :: piece ++ right))[left.length]? = some c := by simp
    have next := @ih (left ++ [c])
    rw [skipBlanks, here]
    by_cases blank : isBlank c <;> simp_all [Nat.add_assoc, Nat.add_comm 1]

theorem dropBlanks_append :
    dropBlanks (left ++ (piece ++ right)) left.length (left.length + piece.length) =
      left.length + (trimRight piece).length := by
  induction piece using reverseRecOn generalizing right with
  | nil => simp [dropBlanks, trimRight]
  | append_singleton piece c ih =>
    have next := @ih (c :: right)
    rw [dropBlanks]
    by_cases blank : isBlank c <;> simp_all [trimRight]

/-- What the two loops leave of a piece is the piece without the white space at its ends. -/
theorem cut_trimmed :
    let s := left ++ (piece ++ right)
    let last := left.length + piece.length
    let first := skipBlanks s left.length last
    Span.cut s (first, dropBlanks s first last) = trim piece := by
  intro s last first
  -- Past the first loop the white space before the piece belongs to what is on its left.
  have first_eq : first = (left ++ piece.takeWhile isBlank).length := by
    rw [length_append, ← skipBlanks_append]
  have parts := @takeWhile_append_dropWhile _ isBlank piece
  generalize piece.takeWhile isBlank = blanks at first_eq parts
  have last_eq : last = (left ++ blanks).length + (trimLeft piece).length := by
    rw [length_append, Nat.add_assoc, ← length_append, trimLeft, parts]
  have s_eq : s = (left ++ blanks) ++ (trimLeft piece ++ right) := by
    rw [append_assoc, ← append_assoc blanks, trimLeft, parts]
  rw [Span.cut, first_eq, last_eq, s_eq, dropBlanks_append, Nat.add_sub_cancel_left, drop_left]
  exact (prefix_iff_eq_take.1 (( rdropWhile_prefix ..).trans (prefix_append ..))).symm

theorem map_spansFrom (left right : List Char) :
    (spansFrom (left ++ right) left.length).map (Span.cut (left ++ right)) =
      (keptPieces (left ≠ []) right).map trim := by
  rw [spansFrom, if_pos (by simp)]
  by_cases comma : ',' ∈ right
  · rcases eq_append_cons_of_mem comma with ⟨piece, rest, rfl, noComma⟩
    have ih := map_spansFrom (left ++ piece ++ [',']) rest
    simp only [append_assoc, singleton_append, length_append, length_singleton, ← Nat.add_assoc]
      at ih
    rw [commaFrom_append noComma (by simp), keptPieces_append _ noComma, if_neg, map_cons,
      map_cons, cut_trimmed, ih]
    · simp
    · have := (@takeWhile_sublist _ piece isBlank).length_le
      simp only [skipBlanks_append, length_append, length_cons]
      omega
  · have last := @commaFrom_append left right [] comma (by simp)
    have first := @skipBlanks_append left right []
    have cut := @cut_trimmed left right []
    have ends : spansFrom (left ++ right) (left.length + right.length + 1) = [] := by
      rw [spansFrom, if_neg (by simp)]
    -- The first loop comes to the end of the text if and only if the last piece is blank.
    have blank : left.length + (right.takeWhile isBlank).length = (left ++ right).length ↔
        right.all isBlank := by
      rw [length_append, Nat.add_left_cancel_iff, all_eq_true, ← takeWhile_eq_self_iff]
      exact ⟨( takeWhile_prefix _).eq_of_length, congrArg _⟩
    simp only [append_nil] at last first cut
    simp only [last, ends, first] at cut ⊢
    rw [keptPieces_of_not_mem _ comma]
    simp only [blank, ne_eq, length_eq_zero_iff]
    split <;> simp [cut]
termination_by right.length
decreasing_by
  subst_vars
  simp
  omega

/-- In order, the spans cut the pieces between the commas out of a text, without the white space at
their ends; a blank last piece after a comma is left out. -/
theorem enumCases_eq_pieces (s : String) :
    let pieces := s.toList.splitOn ','
    (enumCaseSpans s).map (Span.of s) =
      (if pieces.getLast?.any (·.all isBlank) ∧ ',' ∈ s.toList then pieces.dropLast
        else pieces).map fun piece => String.ofList (trim piece) := by
  have spans := congrArg (map String.ofList) (map_spansFrom [] s.toList)
  simp only [keptPieces, map_map, ne_eq, not_true_eq_false, false_or] at spans
  exact spans

end BinaryLayout.Cpp
