import Mathlib.Data.List.Forall2
import BinaryLayout.Failure

/-!
# Steps that succeed

A step that can fail is made of smaller ones.  It succeeds exactly if each of them does, and the
laws here say so for every way of putting steps together, so that a successful run can be taken
apart from the outside in.
-/

namespace BinaryLayout

namespace Checked

variable {α β σ : Type}

variable {step : Checked α} {b : β} {a : α} {list : List α} {results others : List β}
  {related : α → β → Prop} {state state' : σ} {result : α × σ}
  {body : α → StateT σ (Except Failure) (ForInStep PUnit)} {next : α → StateT σ (Except Failure) β}

theorem bind_eq_ok {next : α → Checked β} :
    (step >>= next) = .ok b ↔ ∃ a, step = .ok a ∧ next a = .ok b := by
  cases step <;> simp [bind, Except.bind]

@[simp]
theorem pure_eq_ok {b : α} : (pure a : Checked α) = .ok b ↔ a = b := by
  simp [pure, Except.pure]

@[simp]
theorem throw_ne_ok {f : Failure} : (throw f : Checked α) ≠ .ok a := by
  simp [throw, throwThe, MonadExceptOf.throw]

theorem map_eq_ok {change : α → β} :
    (change <$> step) = .ok b ↔ ∃ a, step = .ok a ∧ change a = b := by
  cases step <;> simp [Functor.map, Except.map]

theorem mapM_eq_ok {step : α → Checked β} :
    list.mapM step = .ok results ↔
      List.Forall₂ (fun a b => step a = .ok b) list results := by
  induction list generalizing results with
  | nil =>
    rw [List.mapM_nil, pure_eq_ok]
    exact ⟨fun equal => equal ▸ .nil, fun related => by cases related; rfl⟩
  | cons _ _ ih =>
    rw [List.mapM_cons, bind_eq_ok]
    constructor
    · rintro ⟨_, headRun, rest⟩
      rw [bind_eq_ok] at rest
      rcases rest with ⟨_, tailRun, equal⟩
      rw [pure_eq_ok] at equal
      subst equal
      exact .cons headRun (ih.1 tailRun)
    · rintro (_ | ⟨headRun, tailRuns⟩)
      refine ⟨_, headRun, bind_eq_ok.2 ⟨_, ih.2 tailRuns, ?_⟩⟩
      rw [pure_eq_ok]

theorem foldlM_preserves {step : β → α → Checked β} {first last : β} (holds : β → Prop)
    (run : list.foldlM step first = .ok last) (start : holds first)
    (kept : ∀ a ∈ list, ∀ b b', holds b → step b a = .ok b' → holds b') : holds last := by
  induction list generalizing first with
  | nil =>
    cases run
    exact start
  | cons a rest ih =>
    rw [List.foldlM_cons] at run
    rcases bind_eq_ok.1 run with ⟨next, ran, run⟩
    exact ih run (kept a List.mem_cons_self first next start ran)
      fun a inRest => kept a (List.mem_cons_of_mem _ inRest)

theorem exists_right_of_mem (pairs : List.Forall₂ related list others) (member : a ∈ list) :
    ∃ b ∈ others, related a b := by
  induction pairs with
  | nil => cases member
  | cons head tail ih =>
    rcases List.mem_cons.1 member with rfl | inTail
    · exact ⟨_, List.mem_cons_self, head⟩
    · rcases ih inTail with ⟨b, inOthers, holds⟩
      exact ⟨b, List.mem_cons_of_mem _ inOthers, holds⟩

theorem exists_left_of_mem (pairs : List.Forall₂ related list others) (member : b ∈ others) :
    ∃ a ∈ list, related a b :=
  exists_right_of_mem (List.Forall₂.flip pairs) member

/-! ## Steps that change a state -/

/-- A step that leaves the state alone, taken among steps that may change it. -/
theorem run_liftM_eq_ok :
    (liftM step : StateT σ (Except Failure) α).run state = .ok result ↔
      ∃ a, step = .ok a ∧ result = (a, state) := by
  cases step with
  | error =>
    simp [liftM, monadLift, MonadLift.monadLift, StateT.lift, StateT.run, bind, Except.bind]
  | ok a =>
    simp [liftM, monadLift, MonadLift.monadLift, StateT.lift, StateT.run, bind, Except.bind,
      pure, Except.pure, eq_comm]

@[simp]
theorem run_pure_eq_ok :
    (pure a : StateT σ (Except Failure) α).run state = .ok result ↔ result = (a, state) := by
  rw [StateT.run_pure, pure_eq_ok, eq_comm]

@[simp]
theorem run_throw_ne_ok {failure : Failure} :
    (throw failure : StateT σ (Except Failure) α).run state ≠ .ok result := by
  simp [throw, throwThe, MonadExceptOf.throw, StateT.run, StateT.lift, bind, Except.bind]

theorem run_bind_eq_ok {step : StateT σ (Except Failure) α} {result : β × σ} :
    (step >>= next).run state = .ok result ↔
      ∃ a middle, step.run state = .ok (a, middle) ∧ (next a).run middle = .ok result := by
  rw [StateT.run_bind, bind_eq_ok]
  constructor
  · rintro ⟨⟨a, middle⟩, first, rest⟩
    exact ⟨a, middle, first, rest⟩
  · rintro ⟨a, middle, first, rest⟩
    exact ⟨(a, middle), first, rest⟩

/-- A value that does not depend on the state, and what is done with it. -/
theorem run_lift_bind_eq_ok {result : β × σ} :
    ((liftM step : StateT σ (Except Failure) α) >>= next).run state = .ok result ↔
      ∃ a, step = .ok a ∧ (next a).run state = .ok result := by
  rw [run_bind_eq_ok]
  constructor
  · rintro ⟨a, middle, lifted, rest⟩
    rcases run_liftM_eq_ok.1 lifted with ⟨_, isValue, same⟩
    cases same
    exact ⟨a, isValue, rest⟩
  · rintro ⟨a, isValue, rest⟩
    exact ⟨a, state, run_liftM_eq_ok.2 ⟨a, isValue, rfl⟩, rest⟩

@[simp]
theorem run_get_eq_ok {result : σ × σ} :
    (get : StateT σ (Except Failure) σ).run state = .ok result ↔ result = (state, state) := by
  simp [get, getThe, MonadStateOf.get, StateT.run, StateT.get, pure, Except.pure, eq_comm]

@[simp]
theorem run_modify_eq_ok {change : σ → σ} {result : PUnit × σ} :
    (modify change : StateT σ (Except Failure) PUnit).run state = .ok result ↔
      result = (⟨⟩, change state) := by
  simp [modify, modifyGet, MonadStateOf.modifyGet, StateT.run, StateT.modifyGet, pure,
    Except.pure, eq_comm]

theorem run_mapM_eq_ok {step : α → StateT σ (Except Failure) β}
    (run : (list.mapM step).run state = .ok (results, state')) :
    List.Forall₂ (fun a b => ∃ s s', (step a).run s = .ok (b, s')) list results := by
  induction list generalizing results state with
  | nil =>
    cases run
    exact .nil
  | cons _ _ ih =>
    rw [List.mapM_cons] at run
    rcases run_bind_eq_ok.1 run with ⟨b, middle, firstRun, run⟩
    rcases run_bind_eq_ok.1 run with ⟨bs, _, restRun, ends⟩
    cases ends
    exact .cons ⟨state, middle, firstRun⟩ (ih restRun)

/-- What holds before a loop and is kept by each of its steps holds after it.  It may speak of
the elements that have had their turn. -/
theorem run_loop_induction {u : PUnit} (holds : List α → σ → Prop) (start : holds [] state)
    (step : ∀ done x s next s', x ∈ list → holds done s → (body x).run s = .ok (next, s') →
      next = .yield ⟨⟩ ∧ holds (done ++ [x]) s')
    (run : (forIn list PUnit.unit fun x _ => body x).run state = .ok (u, state')) :
    holds list state' := by
  suffices general : ∀ rest done s, done ++ rest = list → holds done s →
      (forIn rest PUnit.unit fun x _ => body x).run s = .ok (u, state') → holds list state' from
    general list [] state rfl start run
  intro rest
  induction rest with
  | nil =>
    intro done s isList now rest
    rw [List.forIn_nil, run_pure_eq_ok] at rest
    cases rest
    rwa [← isList, List.append_nil]
  | cons first _ ih =>
    intro done s isList now rest
    rw [List.forIn_cons, run_bind_eq_ok] at rest
    rcases rest with ⟨next, middle, firstRun, rest⟩
    rcases step done first s next middle (by simp [← isList]) now firstRun with ⟨rfl, then'⟩
    exact ih (done ++ [first]) middle (by simp [← isList]) then' rest

/-- A loop whose steps all leave the state alone. -/
theorem run_loop_rests (rests : ∀ x ∈ list, (body x).run state = .ok (.yield ⟨⟩, state)) :
    (forIn list PUnit.unit fun x _ => body x).run state = .ok (⟨⟩, state) := by
  induction list with
  | nil => rfl
  | cons first _ ih =>
    rw [List.forall_mem_cons] at rests
    rw [List.forIn_cons]
    exact run_bind_eq_ok.2 ⟨_, state, rests.1, ih rests.2⟩

end Checked

namespace Failure

variable {α : Type}

variable {part : Option α} {a : α} {list : List α}

@[simp]
theorem ensure_eq_ok {condition : Bool} {u : Unit} :
    ensure condition = .ok u ↔ condition = true := by
  cases condition <;> simp [ensure]

@[simp]
theorem require_eq_ok : require part = .ok a ↔ part = some a := by
  cases part <;> simp [require]

@[simp]
theorem entry_eq_ok : entry part = .ok a ↔ part = some a := by
  cases part <;> simp [entry]

@[simp]
theorem element_eq_ok {index : Nat} :
    element list index = .ok a ↔ list[index]? = some a := by
  unfold element
  cases list[index]? <;> simp

@[simp]
theorem lastOf_eq_ok : lastOf list = .ok a ↔ list.getLast? = some a := by
  unfold lastOf
  cases list.getLast? <;> simp

end Failure

end BinaryLayout
