import BinaryLayout.Expansion.Fields
import BinaryLayout.Proofs.IR.Object
import BinaryLayout.Proofs.Report

/-!
# Names of implied fields

Main statement: if all objects of a program have names, then so have those that it has once the
implied fields are added, and its files are the same.
-/

namespace BinaryLayout.Expansion

open IR Checked List
open TypeDefinition (areNamed)

variable {file : String} {fields fields' : List Field} {before after : List MessageGroup}
  {body body' : TypeBody} {f : Field} {subtypes subtypes' : List TypeDefinition} {p p' : Program}

/-! ## The end of the field before -/

theorem names_replaceInFields {last : Option Placement}
    (run : (replaceInFields file last fields).run before = .ok (fields', after)) :
    fields'.map (·.name) = fields.map (·.name) := by
  induction fields generalizing last fields' before with
  | nil =>
    cases run
    rfl
  | cons f rest ih =>
    rw [replaceInFields] at run
    split at run
    · rcases run_bind_eq_ok.1 run with ⟨others, middle, restRun, ends⟩
      cases ends
      rw [map_cons, map_cons, ih restRun]
    · simp only [run_bind_eq_ok] at run
      rcases run with ⟨_, _, _, _, _, _, _, _, _, _, _, _, run⟩
      split at run
      · cases run
        rfl
      · simp only [run_bind_eq_ok] at run
        rcases run with ⟨_, _, _, _, _, _, _, _, _, run⟩
        split at run
        · cases run
          rfl
        · rcases run_bind_eq_ok.1 run with ⟨others, middle, restRun, ends⟩
          cases ends
          rw [map_cons, map_cons, ih restRun]

theorem names_replaceInBody (run : (replaceInBody file body).run before = .ok (body', after)) :
    body'.names = body.names := by
  cases body with
  | record b =>
    rcases run_bind_eq_ok.1 run with ⟨_, _, fieldsRun, ends⟩
    cases ends
    exact names_replaceInFields fieldsRun
  | _ =>
    cases run
    rfl

mutual

theorem isNamed_replaceInType {t t' : TypeDefinition}
    {before after : List MessageGroup}
    (run : (replaceInType file t).run before = .ok (t', after)) :
    t'.name = t.name ∧ t'.isNamed = t.isNamed := by
  rcases t with ⟨_, name, _, _, _, _, _, _⟩
  rcases run_bind_eq_ok.1 run with ⟨_, _, bodyRun, run⟩
  rcases run_bind_eq_ok.1 run with ⟨_, _, subtypesRun, ends⟩
  cases ends
  refine ⟨rfl, ?_⟩
  simp only [TypeDefinition.isNamed, names_replaceInBody bodyRun,
    areNamed_replaceInTypes subtypesRun]

theorem areNamed_replaceInTypes {types types' : List TypeDefinition}
    {before after : List MessageGroup}
    (run : (replaceInTypes file types).run before = .ok (types', after)) :
    areNamed types' = areNamed types := by
  cases types with
  | nil =>
    cases run
    rfl
  | cons =>
    rcases run_bind_eq_ok.1 run with ⟨t', _, first, run⟩
    rcases run_bind_eq_ok.1 run with ⟨_, _, others, ends⟩
    cases ends
    rcases isNamed_replaceInType first with ⟨sameName, same⟩
    simp only [areNamed, sameName, same, areNamed_replaceInTypes others]

end

/-! ## Implied fields -/

theorem hasText_synthetic (n : Option NameDefinition) :
    hasText (n.map NameDefinition.synthetic) = hasText n := by
  rcases n with _ | ⟨w, _⟩
  · rfl
  · cases w <;> rfl

theorem hasText_aliasOf {part : Word} {f' : Field} (run : aliasOf part f = .ok f') :
    hasText f'.name = hasText f.name := by
  rcases bind_eq_ok.1 run with ⟨name, isName, run⟩
  rcases bind_eq_ok.1 run with ⟨_, _, ends⟩
  cases ends
  rw [Failure.require_eq_ok.1 isName]

theorem isNamed_marked {t : TypeDefinition} {b : Structure} (isRecord : t.body = .record b)
    (isNamed : t.isNamed = true) :
    ({ t with body := .record { b with fields := b.fields.map withSyntheticNames } } :
      TypeDefinition).isNamed = true := by
  rw [TypeDefinition.isNamed_iff] at isNamed ⊢
  rw [isRecord] at isNamed
  refine ⟨?_, isNamed.2⟩
  simp only [TypeBody.names, forall_mem_map] at isNamed ⊢
  exact fun f member => (hasText_synthetic f.name).trans (isNamed.1 f member)

theorem named_expandField (run : expandField subtypes f = .ok (fields, subtypes'))
    (field : hasText f.name = true) (types : areNamed subtypes = true) :
    (∀ g ∈ fields, hasText g.name = true) ∧ areNamed subtypes' = true := by
  rcases bind_eq_ok.1 run with ⟨name, _, run⟩
  split at run
  · cases run
    exact ⟨forall_mem_singleton.2 field, types⟩
  · rcases bind_eq_ok.1 run with ⟨_, _, run⟩
    rcases bind_eq_ok.1 run with ⟨t, isType, run⟩
    rw [TypeDefinition.areNamed_iff] at types
    rcases types t (mem_of_getElem? (Failure.element_eq_ok.1 isType)) with ⟨typeName, inside⟩
    split at run
    · rename_i b isRecord
      rcases bind_eq_ok.1 run with ⟨_, aliasRun, ends⟩
      cases ends
      constructor
      · refine forall_mem_cons.2 ⟨field, fun g member => ?_⟩
        rcases exists_left_of_mem (mapM_eq_ok.1 aliasRun) member with
          ⟨_, isInner, run⟩
        rcases bind_eq_ok.1 run with ⟨_, _, run⟩
        rw [hasText_aliasOf run]
        refine (TypeDefinition.isNamed_iff.1 inside).1 _ ?_
        rw [isRecord]
        exact mem_map_of_mem isInner
      · refine TypeDefinition.areNamed_iff.2 fun x member => ?_
        rcases mem_or_eq_of_mem_set member with old | rfl
        · exact types x old
        · exact ⟨typeName, isNamed_marked isRecord inside⟩
    · cases run

theorem named_expandFields (run : expandFields subtypes fields = .ok (fields', subtypes'))
    (named : ∀ f ∈ fields, hasText f.name = true) (types : areNamed subtypes = true) :
    (∀ g ∈ fields', hasText g.name = true) ∧ areNamed subtypes' = true := by
  induction fields generalizing subtypes fields' subtypes' with
  | nil =>
    cases run
    exact ⟨forall_mem_nil _, types⟩
  | cons f rest ih =>
    rcases bind_eq_ok.1 run with ⟨⟨_, _⟩, firstRun, run⟩
    rcases bind_eq_ok.1 run with ⟨⟨_, _⟩, restRun, ends⟩
    cases ends
    rcases forall_mem_cons.1 named with ⟨field, rest⟩
    rcases named_expandField firstRun field types with ⟨firstNamed, middleNamed⟩
    rcases ih restRun rest middleNamed with ⟨othersNamed, lastNamed⟩
    exact ⟨forall_mem_append.2 ⟨firstNamed, othersNamed⟩, lastNamed⟩

theorem named_expandBody {unit : Option AddressableUnit}
    (run : expandBody unit subtypes body = .ok (body', subtypes'))
    (named : ∀ n ∈ body.names, hasText n = true) (types : areNamed subtypes = true) :
    (∀ n ∈ body'.names, hasText n = true) ∧ areNamed subtypes' = true := by
  cases body with
  | record b =>
    rcases bind_eq_ok.1 run with ⟨⟨b', inner⟩, structureRun, ends⟩
    cases ends
    rcases bind_eq_ok.1 structureRun with ⟨⟨_, inner⟩, fieldsRun, structureRun⟩
    rcases bind_eq_ok.1 structureRun with ⟨unit, _, ends⟩
    cases ends
    rcases named_expandFields fieldsRun (forall_mem_map.1 named) types with
      ⟨fieldsNamed, innerNamed⟩
    refine ⟨?_, innerNamed⟩
    simp only [TypeBody.names, map_append, forall_mem_append, forall_mem_map]
    exact ⟨fieldsNamed, by simp [sizeField, boundField, impliedField, hasText, spelling?]⟩
  | _ =>
    cases run
    exact ⟨named, types⟩

theorem areNamed_expandTypes {depth : Nat} {types types' : List TypeDefinition}
    (run : expandTypes depth types = .ok types') (named : areNamed types = true) :
    areNamed types' = true := by
  induction depth generalizing types types' with
  | zero =>
    cases run
    exact named
  | succ depth ih =>
    rw [TypeDefinition.areNamed_iff] at named ⊢
    intro t' member
    rcases exists_left_of_mem (mapM_eq_ok.1 run) member with ⟨t, isType, run⟩
    rcases named t isType with ⟨typeName, inside⟩
    rcases TypeDefinition.isNamed_iff.1 inside with ⟨bodyNamed, parametersNamed, subtypesNamed⟩
    rcases bind_eq_ok.1 run with ⟨⟨_, _⟩, bodyRun, run⟩
    rcases bind_eq_ok.1 run with ⟨_, innerRun, ends⟩
    cases ends
    rcases named_expandBody bodyRun bodyNamed subtypesNamed with ⟨bodyNamed', subtypesNamed'⟩
    exact ⟨typeName, TypeDefinition.isNamed_iff.2
      ⟨bodyNamed', parametersNamed, ih innerRun subtypesNamed'⟩⟩

/-! ## The whole program -/

/-- Modules one by one with the same files, and with names if there were names before. -/
def KeepsNames (m m' : Module) : Prop :=
  m'.fileName = m.fileName ∧ (areNamed m.types = true → areNamed m'.types = true)

theorem isNamed_of_forall₂ (pairs : List.Forall₂ KeepsNames p.modules p'.modules)
    (named : p.isNamed = true) :
    p'.isNamed = true ∧ p'.modules.map (·.fileName) = p.modules.map (·.fileName) := by
  simp only [Program.isNamed, all_eq_true] at named ⊢
  constructor
  · intro m' member
    rcases exists_left_of_mem pairs member with ⟨m, isModule, keeps⟩
    exact keeps.2 (named m isModule)
  · clear named
    generalize p.modules = modules, p'.modules = modules' at pairs
    induction pairs with
    | nil => rfl
    | cons keeps _ ih => rw [map_cons, map_cons, keeps.1, ih]

/-- What is named before implied fields are added is named after, in the same files. -/
theorem isNamed_expand {groups : List MessageGroup} (run : expand p = .ok (p', groups))
    (named : p.isNamed = true) :
    p'.isNamed = true ∧ p'.modules.map (·.fileName) = p.modules.map (·.fileName) := by
  rcases bind_eq_ok.1 run with ⟨⟨middle, _⟩, replaceRun, run⟩
  have replaced : List.Forall₂ KeepsNames p.modules middle.modules := by
    rcases run_bind_eq_ok.1 replaceRun with ⟨modules, _, modulesRun, ends⟩
    cases ends
    refine (run_mapM_eq_ok modulesRun).imp ?_
    rintro m m' ⟨_, _, run⟩
    rcases run_bind_eq_ok.1 run with ⟨types, _, typesRun, ends⟩
    cases ends
    exact ⟨rfl, fun named => (areNamed_replaceInTypes typesRun).trans named⟩
  rcases isNamed_of_forall₂ replaced named with ⟨middleNamed, sameFiles⟩
  dsimp only at run
  split at run
  · cases run
    exact ⟨middleNamed, sameFiles⟩
  · rcases bind_eq_ok.1 run with ⟨modules, modulesRun, ends⟩
    cases ends
    rw [← sameFiles]
    refine isNamed_of_forall₂ ((mapM_eq_ok.1 modulesRun).imp ?_) middleNamed
    intro m m' run
    rcases bind_eq_ok.1 run with ⟨types, typesRun, ends⟩
    cases ends
    exact ⟨rfl, areNamed_expandTypes typesRun⟩

end BinaryLayout.Expansion
