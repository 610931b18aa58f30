import BinaryLayout.Diagnostic.Report
import BinaryLayout.Proofs.Checked

/-!
# Checks that report nothing

A check adds groups of messages to those that were reported before it.  Main statement: if nothing
is reported once a loop over checks is done, then each of the checks, run alone, reports nothing.
-/

namespace BinaryLayout

open Checked List

/-- A check keeps what was reported before it. -/
def Grows {α : Type} (check : ReportM α) : Prop :=
  ∀ before a after, check.run before = .ok (a, after) → before <+: after

/-- A check succeeds without reporting anything. -/
def Silent (check : ReportM Unit) : Prop :=
  check.run [] = .ok ((), [])

section Grows

variable {α β : Type}

variable {check : ReportM α} {before : List MessageGroup} {list : List α}
  {body : α → ReportM (ForInStep PUnit)} {u : PUnit}

theorem Grows.pure (a : α) : Grows (Pure.pure a : ReportM α) := by
  intro before b after run
  cases run_pure_eq_ok.1 run
  exact prefix_rfl

theorem Grows.throw (failure : Failure) : Grows (MonadExcept.throw failure : ReportM α) :=
  fun _ _ _ run => (run_throw_ne_ok run).elim

theorem Grows.lift (step : Checked α) : Grows (liftM step : ReportM α) := by
  intro before a after run
  rcases run_liftM_eq_ok.1 run with ⟨_, _, same⟩
  cases same
  exact prefix_rfl

theorem Grows.get : Grows (MonadState.get : ReportM (List MessageGroup)) := by
  intro before a after run
  cases run_get_eq_ok.1 run
  exact prefix_rfl

theorem Grows.bind {next : α → ReportM β} (first : Grows check) (second : ∀ a, Grows (next a)) :
    Grows (check >>= next) := by
  intro before b after run
  rcases run_bind_eq_ok.1 run with ⟨a, middle, firstRun, secondRun⟩
  exact (first before a middle firstRun).trans (second a middle b after secondRun)

theorem run_reportGroup_eq_ok {group : MessageGroup} {result : Unit × List MessageGroup} :
    (reportGroup group).run before = .ok result ↔ result = ((), before ++ [group]) :=
  run_modify_eq_ok

theorem run_report_ne_nil (m : Message) : (report m).run before ≠ .ok ((), []) := by
  intro run
  have ends := congrArg Prod.snd (run_reportGroup_eq_ok.1 run)
  simp at ends

theorem Grows.reportGroup (group : MessageGroup) : Grows (BinaryLayout.reportGroup group) := by
  intro before a after run
  cases run_reportGroup_eq_ok.1 run
  exact prefix_append ..

/-! ## Loops -/

theorem Grows.forIn (each : ∀ x, Grows (body x)) :
    Grows (ForIn.forIn list PUnit.unit fun x _ => body x) := by
  induction list with
  | nil => exact .pure _
  | cons first rest ih =>
    rw [forIn_cons]
    refine .bind (each first) fun next => ?_
    cases next with
    | done u => exact .pure _
    | yield u => exact ih

theorem Grows.mapM {step : α → ReportM β} (each : ∀ x, Grows (step x)) :
    Grows (list.mapM step) := by
  induction list with
  | nil => exact .pure _
  | cons first rest ih =>
    rw [mapM_cons]
    exact .bind (each first) fun b => .bind ih fun others => .pure _

theorem Grows.loop {check : α → ReportM Unit} (each : ∀ x, Grows (check x)) :
    Grows (ForIn.forIn list PUnit.unit fun x _ => do
      check x
      Pure.pure (ForInStep.yield PUnit.unit)) :=
  .forIn fun x => .bind (each x) fun _ => .pure _

theorem Grows.eq_nil {a : α} (grows : Grows check) (run : check.run before = .ok (a, [])) :
    before = [] :=
  prefix_nil.1 (grows before a [] run)

/-- A step of a loop after which the loop goes on. -/
def Yields {σ : Type} (step : ReportM (ForInStep σ)) : Prop :=
  ∀ before next after, step.run before = .ok (next, after) → ∃ r, next = .yield r

theorem Yields.pure {σ : Type} (r : σ) : Yields (Pure.pure (ForInStep.yield r)) := by
  intro before next after run
  cases run
  exact ⟨r, rfl⟩

theorem Yields.bind {σ : Type} {next : α → ReportM (ForInStep σ)} (each : ∀ a, Yields (next a)) :
    Yields (check >>= next) := by
  intro before _ after run
  rcases run_bind_eq_ok.1 run with ⟨a, middle, _, run⟩
  exact each a middle _ after run

/-- A loop at whose end nothing has been reported was begun with nothing reported, and whatever a
step ensures that ends so holds of all elements. -/
theorem forall_of_loop {σ : Type} {body : α → σ → ReportM (ForInStep σ)} {init last : σ}
    {holds : α → Prop} (yields : ∀ x r, Yields (body x r))
    (each : ∀ x r before r', (body x r).run before = .ok (.yield r', []) → before = [] ∧ holds x)
    (run : (forIn list init body).run before = .ok (last, [])) :
    before = [] ∧ ∀ x ∈ list, holds x := by
  induction list generalizing init before with
  | nil =>
    cases run
    exact ⟨rfl, forall_mem_nil _⟩
  | cons x rest ih =>
    rw [forIn_cons] at run
    rcases run_bind_eq_ok.1 run with ⟨next, _, first, run⟩
    rcases yields x init _ _ _ first with ⟨r', rfl⟩
    rcases ih run with ⟨rfl, others⟩
    rcases each x init before r' first with ⟨rfl, here⟩
    exact ⟨rfl, forall_mem_cons.2 ⟨here, others⟩⟩

theorem silent_of_loop (check : α → ReportM Unit) (grows : ∀ x, Grows (check x))
    (run : (forIn list PUnit.unit fun x _ => do
      check x
      Pure.pure (ForInStep.yield PUnit.unit)).run before = .ok (u, [])) :
    before = [] ∧ ∀ x ∈ list, Silent (check x) := by
  refine forall_of_loop (fun _ _ => .bind fun _ => .pure _) ?_ run
  intro x _ before _ step
  rcases run_bind_eq_ok.1 step with ⟨_, _, checked, ends⟩
  cases ends
  obtain rfl := (grows x).eq_nil checked
  exact ⟨rfl, checked⟩

theorem eq_nil_of_silent_report {groups : List MessageGroup}
    (silent : Silent (forIn groups PUnit.unit fun group _ => do
      BinaryLayout.reportGroup group
      Pure.pure (ForInStep.yield PUnit.unit))) : groups = [] := by
  cases groups with
  | nil => rfl
  | cons first =>
    have reported := (silent_of_loop _ Grows.reportGroup silent).2 first mem_cons_self
    cases run_reportGroup_eq_ok.1 reported

theorem exists_ok_of_length {run : Checked α} {groups : α → List MessageGroup}
    (silent : (run.toOption.map fun a => (groups a).length) = some 0) :
    ∃ a, run = .ok a ∧ groups a = [] := by
  cases run with
  | error => cases silent
  | ok a => exact ⟨a, rfl, length_eq_zero_iff.1 (Option.some.inj silent)⟩

end Grows

end BinaryLayout
