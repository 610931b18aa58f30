import Mathlib.Logic.Function.Basic
import BinaryLayout.Proofs.Writing.Solve

/-!
# Storing a value

A valuation with one physical field changed is what is read after the field has been written.
Main statements: a path leads to one place only, and a number in the range that is known of a
reference to a physical field has room in the field.
-/

namespace BinaryLayout

open IR Bounds

namespace IR

/-- What can be read after a value has been stored at a place. -/
def Valuation.store (ρ : Valuation) (place : Place) (v : Constant) : Valuation :=
  { ρ with stored := Function.update ρ.stored place v }

@[simp]
theorem Valuation.stored_store (ρ : Valuation) (place : Place) (v : Constant) :
    (ρ.store place v).stored place = v :=
  Function.update_self ..

theorem Valuation.stored_store_of_ne {place other : Place} (ne : other ≠ place) (ρ : Valuation)
    (v : Constant) : (ρ.store place v).stored other = ρ.stored other :=
  Function.update_of_ne ne ..

/-! ## One place -/

section Leads

variable {p : Program} {here there elsewhere : Place} {path : List Reference}

theorem Leads.unique (leads : Leads p here path there) (again : Leads p here path elsewhere) :
    there = elsewhere := by
  induction leads generalizing elsewhere with
  | here =>
    cases again
    rfl
  | into named isStored _ ih =>
    cases again with
    | into named' _ onward' =>
      rcases names_unique named named' with ⟨rfl, _⟩
      exact ih onward'
    | through named' isAlias _ _ =>
      rcases names_unique named named' with ⟨_, rfl⟩
      cases (computed?_of_isStored isStored).symm.trans isAlias
  | through named isAlias _ _ inAside ih =>
    cases again with
    | into named' isStored _ =>
      rcases names_unique named named' with ⟨_, rfl⟩
      cases (computed?_of_isStored isStored).symm.trans isAlias
    | through named' isAlias' aside' onward' =>
      rcases names_unique named named' with ⟨_, rfl⟩
      cases isAlias.symm.trans isAlias'
      cases inAside aside'
      exact ih onward'

theorem FieldReference.Reaches.unique {r : FieldReference} {name other : CanonicalName}
    {object second : Object} (reaches : r.Reaches p here there name object)
    (again : r.Reaches p here elsewhere other second) :
    there = elsewhere ∧ name = other ∧ object = second := by
  rcases reaches with ⟨leads, _, ends, named⟩
  rcases again with ⟨leads', _, ends', named'⟩
  cases ends.symm.trans ends'
  rcases names_unique named named' with ⟨rfl, rfl⟩
  exact ⟨leads.unique leads', rfl, rfl⟩

end Leads

end IR

/-! ## Room for a number -/

namespace Bounds

variable {p : Program} {r : Reference} {object : Object} {name : CanonicalName}

theorem atLeast_int {low n : Int} (atLeast : AtLeast (some (.int low)) n) : low ≤ n := by
  rcases atLeast with ⟨_, same, below⟩
  cases same
  exact below

theorem atMost_int {high n : Int} (atMost : AtMost (some (.int high)) n) : n ≤ high := by
  rcases atMost with ⟨_, same, above⟩
  cases same
  exact above

theorem sizeOfObject_of_hasSize {parent : Found} {physical : TypeSpec} {size : Option Int}
    {n : Int} (around : p.findParent name = .ok parent)
    (declared : physicalTypeOf object = .ok physical)
    (run : sizeOfObject parent.object object physical = .ok size)
    (hasSize : HasSize p name object n) : size = some n := by
  have isType := physicalType?_of_eq_ok declared
  cases hasSize with
  | declared isType' sized constant =>
    cases isType.symm.trans isType'
    simp only [sizeOfObject, sized, numberOf, constant, bind, Except.bind, pure, Except.pure] at run
    exact (Except.ok.inj run).symm
  | placed isField isType' unsized isPlaced length constant around' counted =>
    subst isField
    cases isType.symm.trans isType'
    cases around.symm.trans around'
    simp only [sizeOfObject, unsized, isPlaced, length, numberOf, constant, counted,
      Failure.require_some, bind, Except.bind, pure, Except.pure] at run
    exact (Except.ok.inj run).symm

theorem hasRoom_of_bounded {path : List String} {bits : Nat} {number : Int} {low high : Numeral}
    (run : physicalRange path bits = .ok (low, high))
    (consistent : checkConsistent ⟨some (.int 1), some (.int 0), some low, some high⟩ = .ok ())
    (atLeast : AtLeast (some low) number) (atMost : AtMost (some high) number) :
    HasRoom (some path) bits number := by
  rcases finite_of_consistent consistent with ⟨lowFinite, _⟩
  unfold physicalRange at run
  split at run
  · split at run
    · cases run
    · cases run
      exact ⟨atLeast_int atLeast, Int.lt_of_le_sub_one (atMost_int atMost)⟩
  · split at run
    · cases run
    · cases run
      cases bits with
      | zero =>
        have exponent : ((0 : Nat) : Int) - 1 = .negSucc 0 := rfl
        rw [exponent] at lowFinite
        rcases lowFinite (by simp [powerText, opposite]) with ⟨_, known⟩
        exact (finite_opposite_negative known).elim
      | succ n =>
        have exponent : ((n + 1 : Nat) : Int) - 1 = .ofNat n := by simp
        rw [exponent] at atLeast atMost
        have below : -(2 ^ n - (0 : Nat) : Int) ≤ number := atLeast_int atLeast
        have above : number ≤ (2 ^ n - (1 : Nat) : Int) := atMost_int atMost
        refine ⟨?_, ?_⟩
        · simpa using below
        · simpa using Int.lt_of_le_sub_one above
  · split at run
    · cases run
    · cases run
      exact ⟨atLeast_int atLeast, Int.lt_of_le_sub_one (atMost_int atMost)⟩
  · cases run

theorem PhysicalSource.hasRoom {number : Int} (source : PhysicalSource p r object)
    (consistent : checkConsistent
      ⟨some (.int 1), some (.int 0), some source.range.1, some source.range.2⟩ = .ok ())
    (atLeast : AtLeast (some source.range.1) number)
    (atMost : AtMost (some source.range.2) number) (bits : Nat)
    (hasSize : HasSize p source.name object bits) : HasRoom object.typeName? bits number := by
  have sizeIs := sizeOfObject_of_hasSize source.parentIs source.physicalIs source.sizeIs hasSize
  have rangeIs := source.rangeIs
  rw [sizeIs, rangeOfType_eq source.typeNameIs] at rangeIs
  rw [typeName?_of_denotes (physicalType?_of_eq_ok source.physicalIs) source.typeNameIs]
  exact hasRoom_of_bounded rangeIs consistent atLeast atMost

end Bounds

/-- A value that a field has room for can be stored there. -/
theorem Admissible.store {p : Program} {name : CanonicalName} {object : Object} {ρ : Valuation}
    {v : Constant} {there : Place} {address : Address}
    (admissible : Admissible p ρ) (found : p.find name = .ok ⟨address, object⟩)
    (flag : object.isFlag = true → ∃ b, v = .bool b)
    (number : object.isFlag = false → ∃ n, v = .int n ∧
      ∀ bits : Nat, HasSize p name object bits → HasRoom object.typeName? bits n) :
    Admissible p (ρ.store (there ++ [name]) v) := by
  constructor
  all_goals
    intro place name' address' object' found' isStored isFlag
    by_cases here : place ++ [name'] = there ++ [name]
    · rcases List.append_inj' here rfl with ⟨rfl, same⟩
      cases same
      cases found.symm.trans found'
      rw [Valuation.stored_store]
      first | exact flag isFlag | exact number isFlag
    · rw [Valuation.stored_store_of_ne here]
      first
        | exact admissible.flag place name' address' object' found' isStored isFlag
        | exact admissible.number place name' address' object' found' isStored isFlag

end BinaryLayout
