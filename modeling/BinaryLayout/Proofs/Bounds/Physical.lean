import Mathlib.Tactic.Positivity
import BinaryLayout.Proofs.Bounds.Completion
import BinaryLayout.Proofs.IR.Walk

/-!
# What physical fields hold

A valuation is admissible if every physical field and parameter holds a value that its type and
size leave room for.  The size is known if it is written in the type or is that of a place whose
length is constant; where it is not, a field may hold any integer.

Main statement: the bounds of a reference to a physical field hold of whatever the field holds.
A size below zero gives no bounds at all, since these would be fractions.
-/

namespace BinaryLayout

open IR Typing Checked

/-- The size of a field or parameter in bits. -/
inductive HasSize (p : Program) (name : CanonicalName) (object : Object) : Int → Prop
  /-- The size is part of the type. -/
  | declared {physical : TypeSpec} {e : Expression} {c : Constant}
      (isType : object.physicalType? = some physical) (sized : physical.sizeInBits = some e)
      (constant : e.constantValue? = .ok (some c)) : HasSize p name object c.toInt
  /-- The size is that of the place, counted in the units of the type around it. -/
  | placed {f : Field} {physical : TypeSpec} {placement : Placement} {e : Expression}
      {c : Constant} {address : Address} {outer : TypeDefinition} {unit : AddressableUnit}
      (isField : object = .field f) (isType : f.type = some physical)
      (unsized : physical.sizeInBits = none) (isPlaced : f.placement = some placement)
      (length : placement.size = some e) (constant : e.constantValue? = .ok (some c))
      (around : p.findParent name = .ok ⟨address, .definition outer⟩)
      (counted : outer.unit = some unit) : HasSize p name object (c.toInt * unit.bits)

/-- A type with some number of bits leaves room for an integer. -/
def HasRoom (typeName : Option (List String)) (bits : Nat) (number : Int) : Prop :=
  match typeName with
  | some ["UInt"] => 0 ≤ number ∧ number < 2 ^ bits
  | some ["Int"] => -2 ^ (bits - 1) ≤ number ∧ number < 2 ^ (bits - 1)
  | some ["Bcd"] => 0 ≤ number ∧ number < 10 ^ (bits / 4) * 2 ^ (bits % 4)
  | _ => True

/-- Every physical field and parameter holds a value of its type. -/
structure Admissible (p : Program) (ρ : Valuation) : Prop where
  flag : ∀ place name address object, p.find name = .ok ⟨address, object⟩ → object.isStored →
    object.isFlag = true → ∃ b, ρ.stored (place ++ [name]) = .bool b
  number : ∀ place name address object, p.find name = .ok ⟨address, object⟩ → object.isStored →
    object.isFlag = false → ∃ number, ρ.stored (place ++ [name]) = .int number ∧
      ∀ bits : Nat, HasSize p name object bits → HasRoom object.typeName? bits number

theorem hasRoom_zero (typeName : Option (List String)) (bits : Nat) :
    HasRoom typeName bits 0 := by
  unfold HasRoom
  split
  · exact ⟨le_rfl, by positivity⟩
  · exact ⟨neg_nonpos.2 (by positivity), by positivity⟩
  · exact ⟨le_rfl, by positivity⟩
  · trivial

def zeroes : Valuation :=
  ⟨fun _ => .int 0, .int 0, 0, false⟩

/-- Zero has a place everywhere but in a field for a truth value. -/
theorem admissible_zeroes {p : Program}
    (noFlag : ∀ f ∈ (Node.program p).contents.filterMap Node.field?,
      (Object.field f).isFlag = false)
    (noParameter : (Node.program p).contents.filterMap Node.parameter? = []) :
    Admissible p zeroes where
  flag := by
    intro place name address object found _ isFlag
    have inProgram := mem_contents_of_find found
    cases object with
    | field f => cases isFlag.symm.trans (noFlag f (List.mem_filterMap.2 ⟨_, inProgram, rfl⟩))
    | parameter q =>
      cases List.filterMap_eq_nil_iff.1 noParameter _ inProgram
    | _ => cases isFlag
  number := fun _ _ _ _ _ _ _ => ⟨0, rfl, fun _ _ => hasRoom_zero ..⟩

namespace Bounds

/-! ## Fractions are no bounds -/

theorem trim_fraction (rest : List Char) :
    ∃ rest', Text.trim ('-' :: '0' :: '.' :: rest) = '-' :: '0' :: '.' :: rest' := by
  have sign : Text.isBlank '-' = false := by decide
  have point : Text.isBlank '.' = false := by decide
  rw [Text.trim, Text.trimLeft, List.dropWhile_cons_of_neg (by simp [sign]), Text.trimRight]
  simp only [List.reverse_cons, List.append_assoc, List.cons_append, List.nil_append,
    List.dropWhile_append]
  split
  · exact ⟨[], by simp [point]⟩
  · exact ⟨_, by simp; rfl⟩

theorem readInteger_fraction (rest : String) :
    Text.readInteger ("-" ++ ("0." ++ rest)) = none := by
  rcases trim_fraction rest.toList with ⟨rest', trimmed⟩
  have digits : Text.readUnsigned ('0' :: '.' :: rest') = none := by
    have zero : Text.digitValue? '0' = some 0 := by decide
    have point : Text.digitValue? '.' = none := by decide
    simp [Text.readUnsigned, zero, Text.readDigits, point]
  have shown : ("-" ++ ("0." ++ rest)).toList = '-' :: '0' :: '.' :: rest.toList := by simp
  rw [Text.readInteger, shown, trimmed]
  simp [digits]

theorem finite_fraction (rest : String) {n : Int} :
    finite (some (.other ("-" ++ ("0." ++ rest)))) ≠ .ok n := by
  simp [finite, Numeral.toInt, readInteger_fraction]

theorem finite_powerText_negative {n : Nat} {m : Int} :
    finite (some (powerText (.negSucc n) 1)) ≠ .ok m := by
  simp only [powerText, halfDigits, one_ne_zero, if_false, String.append_assoc]
  exact finite_fraction _

theorem finite_opposite_negative {n : Nat} {m : Int} :
    finite (some (opposite (powerText (.negSucc n) 0))) ≠ .ok m := by
  simp only [powerText, halfDigits, if_true, opposite, Numeral.text, String.append_assoc]
  exact finite_fraction _

/-- Bounds that fit together are infinite or integers. -/
theorem finite_of_consistent {low high : Numeral}
    (consistent : checkConsistent ⟨some (.int 1), some (.int 0), some low, some high⟩ = .ok ()) :
    (low ≠ .negInfinity → ∃ n, finite (some low) = .ok n) ∧
      (high ≠ .infinity → ∃ n, finite (some high) = .ok n) := by
  simp only [checkConsistent, beq_iff_eq, Option.some.injEq, reduceCtorEq, if_false,
    bind_eq_ok] at consistent
  rcases consistent with ⟨_, _, _, _, consistent⟩
  constructor
  · intro isFinite
    simp only [ne_eq, Option.some.injEq, isFinite, not_false_eq_true, if_true,
      bind_eq_ok] at consistent
    rcases consistent with ⟨n, known, _⟩
    exact ⟨n, known⟩
  · intro isFinite
    simp only [ne_eq, Option.some.injEq, isFinite, not_false_eq_true, if_true] at consistent
    split at consistent
    · simp only [bind_eq_ok] at consistent
      rcases consistent with ⟨_, _, _, _, _, _, n, known, _⟩
      exact ⟨n, known⟩
    · rw [bind_eq_ok] at consistent
      rcases consistent with ⟨n, known, _⟩
      exact ⟨n, known⟩

/-! ## The bounds of a physical field -/

section Physical

variable {p : Program} {r : Reference} {object : Object} {name : CanonicalName}

variable {physical : TypeSpec} {n number : Int} {typeName : CanonicalName}

theorem physicalType?_of_eq_ok (run : physicalTypeOf object = .ok physical) :
    object.physicalType? = some physical := by
  cases object with
  | field f | parameter q => exact Failure.require_eq_ok.1 run
  | _ => cases run

theorem numberOf_eq_ok {part : Option Expression} (run : numberOf part = .ok (some n)) :
    ∃ e c, part = some e ∧ e.constantValue? = .ok (some c) ∧ n = c.toInt := by
  cases part with
  | none => cases run
  | some e =>
    simp only [numberOf, bind_eq_ok, pure_eq_ok, Option.map_eq_some_iff] at run
    rcases run with ⟨_, constant, c, rfl, rfl⟩
    exact ⟨e, c, rfl, constant, rfl⟩

theorem hasSize_of_sizeOfObject {parent : Found} (around : p.findParent name = .ok parent)
    (declared : physicalTypeOf object = .ok physical)
    (run : sizeOfObject parent.object object physical = .ok (some n)) :
    HasSize p name object n := by
  have isType := physicalType?_of_eq_ok declared
  cases sized : physical.sizeInBits with
  | some e =>
    simp only [sizeOfObject, sized] at run
    rcases numberOf_eq_ok run with ⟨e', c, same, constant, rfl⟩
    cases same
    exact .declared isType sized constant
  | none =>
    cases object with
    | field f =>
      simp only [sizeOfObject, sized, bind_eq_ok, Failure.require_eq_ok] at run
      rcases run with ⟨_, isPlaced, _ | _, lengthRun, run⟩
      · cases run
      · rcases numberOf_eq_ok lengthRun with ⟨e, c, hasLength, constant, rfl⟩
        rcases parent with ⟨_, outer⟩
        cases outer with
        | definition =>
          simp only at run
          split at run
          · rename_i unit counted
            cases run
            exact .placed rfl isType sized isPlaced hasLength constant around counted
          · exact (throw_ne_ok run).elim
        | _ => exact (throw_ne_ok run).elim
    | _ =>
      simp only [sizeOfObject, sized] at run
      cases run

theorem rangeOfType_eq (denotes : Denotes physical typeName) (size : Int) :
    rangeOfType physical (some size) = physicalRange typeName.path size := by
  rcases denotes with ⟨_, _, isAtom, isReference, isName⟩
  simp only [rangeOfType, isAtom, Failure.require, bind, Except.bind, isReference, isName]

theorem typeName?_of_denotes (isType : object.physicalType? = some physical)
    (denotes : Denotes physical typeName) : object.typeName? = some typeName.path := by
  rcases denotes with ⟨_, _, isAtom, isReference, isName⟩
  simp [Object.typeName?, isType, isAtom, isReference, isName]

theorem bounded_of_hasRoom {path : List String} {size : Int} {low high : Numeral}
    (run : physicalRange path size = .ok (low, high))
    (consistent : checkConsistent ⟨some (.int 1), some (.int 0), some low, some high⟩ = .ok ())
    (room : ∀ bits : Nat, size = bits → HasRoom (some path) bits number) :
    AtLeast (some low) number ∧ AtMost (some high) number := by
  rcases finite_of_consistent consistent with ⟨lowFinite, highFinite⟩
  unfold physicalRange at run
  split at run
  · split at run
    · cases run
    · cases run
      cases size with
      | ofNat n =>
        rcases room n rfl with ⟨below, above⟩
        exact ⟨atLeast_of_finite rfl below, atMost_of_finite rfl (Int.le_sub_one_of_lt above)⟩
      | negSucc n =>
        rcases highFinite (by simp [powerText]) with ⟨_, known⟩
        exact (finite_powerText_negative known).elim
  · split at run
    · cases run
    · cases run
      cases exponent : size - 1 with
      | ofNat n =>
        have sizeIs : size = (n + 1 : Nat) := by
          push_cast
          exact (Int.sub_eq_iff_eq_add.1 exponent)
        rcases room (n + 1) sizeIs with ⟨below, above⟩
        exact ⟨atLeast_of_finite rfl below, atMost_of_finite rfl (Int.le_sub_one_of_lt above)⟩
      | negSucc n =>
        rw [exponent] at lowFinite
        rcases lowFinite (by simp [powerText, opposite]) with ⟨_, known⟩
        exact (finite_opposite_negative known).elim
  · split at run
    · cases run
    · cases size with
      | ofNat n =>
        cases run
        rcases room n rfl with ⟨below, above⟩
        exact ⟨atLeast_of_finite rfl below, atMost_of_finite rfl (Int.le_sub_one_of_lt above)⟩
      | negSucc n =>
        cases run
        rcases highFinite (by simp) with ⟨_, known⟩
        exact (finite_fraction "9" known).elim
  · cases run

theorem PhysicalSource.bounded (source : PhysicalSource p r object) (consistent : checkConsistent
      ⟨some (.int 1), some (.int 0), some source.range.1, some source.range.2⟩ = .ok ())
    (room : ∀ bits : Nat, HasSize p source.name object bits →
      HasRoom object.typeName? bits number) :
    Bounded ⟨some (.int 1), some (.int 0), some source.range.1, some source.range.2⟩ number := by
  have between : AtLeast (some source.range.1) number ∧ AtMost (some source.range.2) number := by
    have rangeIs := source.rangeIs
    cases sized : source.size with
    | none =>
      rw [sized] at rangeIs
      rw [← Except.ok.inj rangeIs]
      exact ⟨trivial, trivial⟩
    | some =>
      rw [sized, rangeOfType_eq source.typeNameIs] at rangeIs
      have sizeIs := source.sizeIs
      rw [sized] at sizeIs
      have hasSize := hasSize_of_sizeOfObject source.parentIs source.physicalIs sizeIs
      have isNamed := typeName?_of_denotes (physicalType?_of_eq_ok source.physicalIs)
        source.typeNameIs
      refine bounded_of_hasRoom rangeIs consistent fun bits same => ?_
      rw [← isNamed]
      exact room bits (same ▸ hasSize)
  exact ⟨between.1, between.2, Congruence.holds_of_dvd rfl rfl (one_dvd _)⟩

/-- What is known of a reference to a physical field holds of whatever the field may hold. -/
theorem storedType_within {ρ : Valuation} {own t : ExpressionType} (place : Place)
    (admissible : Admissible p ρ) (named : r.Names p name object) (isStored : object.isStored)
    (rule : storedType p own r object = .ok t) (isOpen : own.isConstant = false)
    (consistent : ∀ bounds, t = .integer bounds → checkConsistent bounds = .ok ())
    (isTyped : (sortOf t).isSome) (flag : object.isFlag = true ↔ sortOf t = some .boolean) :
    Within t (ρ.stored (place ++ [name])) := by
  rcases named with ⟨nameIs, address, found⟩
  have holdsNumber (other : sortOf t ≠ some .boolean) :=
    admissible.number place name address object found isStored
      (Bool.eq_false_iff.2 fun isFlag => other (flag.1 isFlag))
  cases own with
  | integer =>
    rcases physicalBounds_eq_ok.1 rule with ⟨source, rfl⟩
    rcases holdsNumber (by simp [PhysicalSource.type, sortOf]) with ⟨number, holds, room⟩
    cases nameIs.symm.trans source.nameIs
    rw [holds]
    exact source.bounded (consistent _ rfl) room
  | boolean =>
    cases rule
    rcases admissible.flag place name address object found isStored (flag.2 rfl) with ⟨b, holds⟩
    rw [holds]
    intro value isKnown
    rw [ExpressionType.isConstant, isKnown] at isOpen
    cases isOpen
  | enumeration =>
    cases rule
    rcases holdsNumber (by simp [sortOf]) with ⟨number, holds, _⟩
    rw [holds]
    intro text isKnown
    rw [ExpressionType.isConstant, isKnown] at isOpen
    cases isOpen
  | compound =>
    cases rule
    trivial
  | unset =>
    cases rule
    cases isTyped

end Physical

end Bounds

end BinaryLayout
