import BinaryLayout.Attributes.Verify
import BinaryLayout.Proofs.Report

/-!
# Attributes that agree with a program

Main statement: if no attribute of a program is found to be wrong, then no enumeration is wider
than 64 bits, and every field that needs a byte order has one.
-/

namespace BinaryLayout.Attributes

open IR Checked List

variable {p : Program} {t : TypeDefinition} {f : Field} {before : List MessageGroup}

theorem width_of_checkWidth {file : String}
    (run : (checkWidth file t).run before = .ok ((), [])) :
    before = [] ∧ ∃ limit, integerAttribute? t.attributes "maximum_bits" = .ok (some limit) ∧
      1 ≤ limit.toInt ∧ limit.toInt ≤ 64 := by
  rcases run_lift_bind_eq_ok.1 run with ⟨_ | limit, found, run⟩
  · exact (run_throw_ne_ok run).elim
  · dsimp only [Option.map] at run
    split at run
    · rcases run_lift_bind_eq_ok.1 run with ⟨_, _, run⟩
      rcases run_lift_bind_eq_ok.1 run with ⟨_, _, run⟩
      exact (run_report_ne_nil _ run).elim
    · rename_i fits
      cases run
      simp only [Bool.or_eq_true, decide_eq_true_eq] at fits
      exact ⟨rfl, limit, found, by omega⟩

/-- The byte order of a field agrees with what is asked for. -/
structure Agrees (p : Program) (t : TypeDefinition) (f : Field) (value : Option AttributeValue) :
    Prop where
  found : attribute? f.attributes "byte_order" = .ok value
  needed : needsByteOrder p t f = .ok value.isSome
  isNull : ∀ v, value = some v → (v.string?.bind (·.text)) = some "Null" →
    mayLackByteOrder p t f = .ok true

theorem agrees_of_checkByteOrder {file : String}
    (run : (checkByteOrder p file t f).run before = .ok ((), [])) :
    before = [] ∧ ∃ value, Agrees p t f value := by
  rcases run_lift_bind_eq_ok.1 run with ⟨value, found, run⟩
  rcases run_lift_bind_eq_ok.1 run with ⟨needed, isNeeded, run⟩
  cases value with
  | none =>
    dsimp only at run
    split at run
    · exact (run_report_ne_nil _ run).elim
    · rename_i notNeeded
      obtain rfl : needed = false := by simpa using notNeeded
      cases run
      exact ⟨rfl, none, found, isNeeded, by rintro _ ⟨⟩⟩
  | some value =>
    dsimp only at run
    split at run
    · rcases run_bind_eq_ok.1 run with ⟨_, _, reported, run⟩
      rcases run_lift_bind_eq_ok.1 run with ⟨_, _, run⟩
      split at run
      · rcases run_lift_bind_eq_ok.1 run with ⟨_, _, run⟩
        split at run
        · exact (run_report_ne_nil _ run).elim
        · cases run
          exact (run_report_ne_nil _ reported).elim
      · cases run
        exact (run_report_ne_nil _ reported).elim
    · rename_i isNeeded'
      obtain rfl : needed = true := by simpa using isNeeded'
      rcases run_lift_bind_eq_ok.1 run with ⟨string, isString, run⟩
      rw [Failure.require_eq_ok] at isString
      split at run
      · rcases run_lift_bind_eq_ok.1 run with ⟨may, isMay, run⟩
        split at run
        · exact (run_report_ne_nil _ run).elim
        · rename_i isMay'
          obtain rfl : may = true := by simpa using isMay'
          cases run
          exact ⟨rfl, some value, found, isNeeded, fun _ _ _ => isMay⟩
      · rename_i notNull
        cases run
        refine ⟨rfl, some value, found, isNeeded, ?_⟩
        rintro _ ⟨⟩ isNull
        rw [isString] at isNull
        exact absurd (beq_iff_eq.2 isNull) notNull

theorem grows_checkUnit (file : String) (t : TypeDefinition) : Grows (checkUnit file t) := by
  refine .bind (.lift _) fun value => ?_
  split
  · exact .reportGroup _
  · split
    · exact .reportGroup _
    · exact .pure _

theorem grows_checkRequirement (file : String) (f : Field) : Grows (checkRequirement p file f) := by
  refine .bind (.lift _) fun value => ?_
  split
  · exact .pure _
  · refine .bind (.lift _) fun type => ?_
    split
    · exact .reportGroup _
    · exact .pure _
    · exact .pure _
    · exact .pure _
    · exact .reportGroup _

theorem agrees_of_verify (run : verify p = .ok []) :
    (∀ v ∈ p.visits [.enumBody], ∃ t limit, v.typeDefinition? = some t ∧
        integerAttribute? t.attributes "maximum_bits" = .ok (some limit) ∧
        1 ≤ limit.toInt ∧ limit.toInt ≤ 64) ∧
      ∀ x ∈ p.partsOf Node.field? [.field], ∃ t value, x.1.typeDefinition? = some t ∧
        Agrees p t x.2 value := by
  rcases bind_eq_ok.1 run with ⟨⟨_, _⟩, run, ends⟩
  cases ends
  rcases run_bind_eq_ok.1 run with ⟨_, _, _, run⟩
  rcases run_bind_eq_ok.1 run with ⟨_, _, _, run⟩
  rcases run_bind_eq_ok.1 run with ⟨_, _, enums, run⟩
  rcases run_bind_eq_ok.1 run with ⟨_, _, externals, run⟩
  rcases run_bind_eq_ok.1 run with ⟨_, _, fields, ends⟩
  cases ends
  have agree : _ = [] ∧ ∀ x ∈ p.partsOf Node.field? [.field], ∃ t value,
      x.1.typeDefinition? = some t ∧ Agrees p t x.2 value :=
    forall_of_loop (fun _ _ => .bind fun _ => .bind fun _ => .bind fun _ => .pure _) ?_ fields
  · cases agree.1
    obtain rfl := (Grows.forIn fun v : Visit => .bind (.lift (Failure.require v.typeDefinition?))
      fun t => .bind (grows_checkUnit v.file t) fun _ => .pure _).eq_nil externals
    refine ⟨(forall_of_loop (fun _ _ => .bind fun _ => .bind fun _ => .pure _) ?_ enums).2, agree.2⟩
    intro v _ before _ step
    rcases run_lift_bind_eq_ok.1 step with ⟨t, isType, step⟩
    rcases run_bind_eq_ok.1 step with ⟨_, _, checked, ends⟩
    cases ends
    rcases width_of_checkWidth checked with ⟨rfl, limit, found, fits⟩
    exact ⟨rfl, t, limit, Failure.require_eq_ok.1 isType, found, fits⟩
  · intro x _ before _ step
    rcases run_lift_bind_eq_ok.1 step with ⟨t, isType, step⟩
    rcases run_bind_eq_ok.1 step with ⟨_, _, checked, step⟩
    rcases run_bind_eq_ok.1 step with ⟨_, _, required, ends⟩
    cases ends
    obtain rfl := (grows_checkRequirement x.1.file x.2).eq_nil required
    rcases agrees_of_checkByteOrder checked with ⟨rfl, value, agrees⟩
    exact ⟨rfl, t, value, Failure.require_eq_ok.1 isType, agrees⟩

end BinaryLayout.Attributes
