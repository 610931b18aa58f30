import Mathlib.Data.List.Induction
import BinaryLayout.Proofs.Report
import BinaryLayout.Scope.Table

/-!
# What a table of names records

A table knows scopes by number only.  `Table.Reaches` says which absolute name leads to which
number, and `Table.Records` that certain declarations, no two of one name in one scope, are held.

Main statement: a definition that nothing is reported about adds one declaration to those that
the table recorded before.
-/

namespace BinaryLayout.Scope

open IR Checked List

/-- A name that is defined in a scope, and the absolute name of what it stands for. -/
structure Declaration where
  scope : CanonicalName
  name : String
  target : CanonicalName

/-- What only one declaration can have. -/
def Declaration.key (d : Declaration) : CanonicalName × String :=
  (d.scope, d.name)

theorem nested_inj {outer other : CanonicalName} {name name' : String} :
    nested outer name = nested other name' ↔ outer = other ∧ name = name' := by
  cases outer
  cases other
  simp [nested, and_assoc]

theorem nested_ne_file {outer : CanonicalName} {name file : String} :
    nested outer name ≠ ⟨file, []⟩ := by
  simp [nested]

namespace Table

variable {t : Table} {k n scope : Nat} {s target : CanonicalName} {name : String} {e : Entry}

section Redefine

variable (t : Table) (scope : Nat) (name : String) (e : Entry)

theorem next?_redefine (k : Nat) (x : String) :
    (t.redefine scope name e).1.next? k x =
      if k = scope ∧ x = name then some t.entries.size else t.next? k x := by
  simp only [redefine, next?, Std.HashMap.getElem?_insert, beq_iff_eq, Prod.mk.injEq,
    eq_comm (a := scope), eq_comm (a := name)]

theorem entry_redefine (k : Nat) :
    (t.redefine scope name e).1.entry k = if k = t.entries.size then e else t.entry k := by
  simp only [redefine, entry, Array.getD_eq_getD_getElem?, Array.getElem?_push]
  split <;> rfl

@[simp]
theorem size_redefine : (t.redefine scope name e).1.entries.size = t.entries.size + 1 := by
  simp [redefine]

end Redefine

theorem next_eq_ok : t.next scope name = .ok n ↔ t.next? scope name = some n := by
  unfold next
  cases t.next? scope name <;> simp

/-! ## Absolute names and numbers -/

/-- An absolute name leads to a scope. -/
inductive Reaches (t : Table) : CanonicalName → Nat → Prop
  | file {file : String} {k : Nat} (next : t.next? root file = some k) : Reaches t ⟨file, []⟩ k
  | name {outer : CanonicalName} {k n : Nat} {x : String} (reached : Reaches t outer k)
      (next : t.next? k x = some n) : Reaches t (nested outer x) n

theorem reaches_file_iff {file : String} : t.Reaches ⟨file, []⟩ k ↔ t.next? root file = some k := by
  refine ⟨fun reached => ?_, .file⟩
  generalize isFile : (⟨file, []⟩ : CanonicalName) = whole at reached
  cases reached with
  | file next =>
    cases isFile
    exact next
  | name => exact (nested_ne_file isFile.symm).elim

theorem reaches_nested_iff {outer : CanonicalName} {x : String} :
    t.Reaches (nested outer x) n ↔ ∃ k, t.Reaches outer k ∧ t.next? k x = some n := by
  refine ⟨fun reached => ?_, fun ⟨k, reached, next⟩ => .name reached next⟩
  generalize isNested : nested outer x = whole at reached
  cases reached with
  | file => exact (nested_ne_file isNested).elim
  | name reached next =>
    rcases nested_inj.1 isNested with ⟨rfl, rfl⟩
    exact ⟨_, reached, next⟩

theorem Reaches.unique {k' : Nat} (first : t.Reaches s k) (second : t.Reaches s k') : k = k' := by
  induction first generalizing k' with
  | file next => exact Option.some.inj (next.symm.trans (reaches_file_iff.1 second))
  | name _ next ih =>
    rcases reaches_nested_iff.1 second with ⟨_, reached, next'⟩
    rw [← ih reached, next] at next'
    exact Option.some.inj next'

theorem Reaches.redefine (reached : t.Reaches s k) (free : t.next? scope name = none) :
    (t.redefine scope name e).1.Reaches s k := by
  have kept {k n : Nat} {x : String} (next : t.next? k x = some n) :
      (t.redefine scope name e).1.next? k x = some n := by
    rw [next?_redefine, if_neg, next]
    rintro ⟨rfl, rfl⟩
    rw [free] at next
    cases next
  induction reached with
  | file next => exact .file (kept next)
  | name _ next ih => exact .name ih (kept next)

/-- An absolute name leads to an entry for something. -/
structure LeadsTo (t : Table) (s : CanonicalName) (k : Nat) (target : CanonicalName) : Prop where
  reached : t.Reaches s k
  named : (t.entry k).canonicalName = target
  lt : k < t.entries.size

/-- A scope with the absolute name that leads to it. -/
abbrev IsScope (t : Table) (s : CanonicalName) (k : Nat) : Prop :=
  t.LeadsTo s k s

/-- What stood in a table before something was added to it. -/
theorem LeadsTo.old (leads : t.LeadsTo s k target)
    (reached : (t.redefine scope name e).1.Reaches s k) :
    (t.redefine scope name e).1.LeadsTo s k target := by
  refine ⟨reached, ?_, ?_⟩
  · rw [entry_redefine, if_neg (Nat.ne_of_lt leads.lt)]
    exact leads.named
  · rw [size_redefine]
    exact Nat.lt_succ_of_lt leads.lt

theorem leadsTo_new (reached : (t.redefine scope name e).1.Reaches s t.entries.size) :
    (t.redefine scope name e).1.LeadsTo s t.entries.size e.canonicalName := by
  refine ⟨reached, ?_, ?_⟩
  · rw [entry_redefine, if_pos rfl]
  · rw [size_redefine]
    exact Nat.lt_succ_self _

/-! ## Tables that grow -/

/-- A table holds certain declarations, each under a name that is taken once in its scope. -/
structure Records (t : Table) (declarations : List Declaration) : Prop where
  leads : ∀ d ∈ declarations, ∃ k, t.LeadsTo (nested d.scope d.name) k d.target
  nodup : (declarations.map Declaration.key).Nodup

theorem records_nil (t : Table) : t.Records [] :=
  ⟨forall_mem_nil _, nodup_nil⟩

theorem Records.perm {ds ds' : List Declaration} (records : t.Records ds) (same : ds.Perm ds') :
    t.Records ds' :=
  ⟨fun d member => records.leads d (same.mem_iff.2 member),
    ((same.map _).nodup_iff).1 records.nodup⟩

/-- A table keeps all scopes and records some more declarations. -/
structure Extends (t t' : Table) (new : List Declaration) : Prop where
  isScope : ∀ {s : CanonicalName} {k : Nat}, t.IsScope s k → t'.IsScope s k
  records : ∀ {ds : List Declaration}, t.Records ds → t'.Records (ds ++ new)

theorem Extends.refl (t : Table) : t.Extends t [] :=
  ⟨id, fun records => by rwa [append_nil]⟩

theorem Extends.trans {t' t'' : Table} {new others : List Declaration} (first : t.Extends t' new)
    (second : t'.Extends t'' others) : t.Extends t'' (new ++ others) :=
  ⟨fun isScope => second.isScope (first.isScope isScope), fun records => by
    rw [← append_assoc]
    exact second.records (first.records records)⟩

theorem Extends.perm {t t' : Table} {new new' : List Declaration} (extends_ : t.Extends t' new)
    (same : new.Perm new') : t.Extends t' new' :=
  ⟨extends_.isScope, fun records => (extends_.records records).perm (same.append_left _)⟩

theorem IsScope.nested (isScope : t.IsScope s k) (free : t.next? k name = none) :
    (t.redefine k name e).1.LeadsTo (nested s name) t.entries.size e.canonicalName := by
  refine leadsTo_new (.name (isScope.reached.redefine free) ?_)
  rw [next?_redefine, if_pos ⟨rfl, rfl⟩]

theorem IsScope.extends (isScope : t.IsScope s k) (free : t.next? k name = none) :
    t.Extends (t.redefine k name e).1 [⟨s, name, e.canonicalName⟩] := by
  refine ⟨fun other => other.old (other.reached.redefine free), fun {ds} records => ⟨?_, ?_⟩⟩
  · refine forall_mem_append.2 ⟨fun d member => ?_, forall_mem_singleton.2
      ⟨_, isScope.nested free⟩⟩
    rcases records.leads d member with ⟨n, leads⟩
    exact ⟨n, leads.old (leads.reached.redefine free)⟩
  · -- the name was free, so nothing was declared under it
    rw [map_append, nodup_append]
    refine ⟨records.nodup, by simp, ?_⟩
    rintro _ isOld _ isNew same
    cases mem_singleton.1 isNew
    rcases mem_map.1 isOld with ⟨d, member, isKey⟩
    cases isKey.trans same
    rcases records.leads d member with ⟨n, leads⟩
    rcases reaches_nested_iff.1 leads.reached with ⟨k', reached, next⟩
    rw [reached.unique isScope.reached, free] at next
    cases next

end Table

/-! ## Steps that report nothing -/

/-- What a step comes to if nothing has been reported once it is done. -/
def Meets {σ α : Type} (step : StateT σ ReportM α) (spec : σ → α → σ → Prop) : Prop :=
  ∀ t before a t', (step.run t).run before = .ok ((a, t'), []) → before = [] ∧ spec t a t'

section Meets

variable {σ α β : Type} {step : StateT σ ReportM α}

theorem Meets.mono {spec weaker : σ → α → σ → Prop} (meets : Meets step spec)
    (implies : ∀ t a t', spec t a t' → weaker t a t') :
    Meets step weaker :=
  fun t before a t' run => (meets t before a t' run).imp_right (implies t a t')

theorem Meets.pure (a : α) :
    Meets (Pure.pure a : StateT σ ReportM α) fun t b t' => b = a ∧ t' = t := by
  intro t before b t' run
  cases run
  exact ⟨rfl, rfl, rfl⟩

/-- A step that leaves the state alone but may report something. -/
theorem Meets.ofReport {step : ReportM α} {spec : α → Prop}
    (silent : ∀ before a, step.run before = .ok (a, []) → before = [] ∧ spec a) :
    Meets (liftM step : StateT σ ReportM α) fun t a t' => spec a ∧ t' = t := by
  intro t before a t' run
  have bound : (step >>= fun a => Pure.pure (a, t)).run before = .ok ((a, t'), []) := run
  rcases run_bind_eq_ok.1 bound with ⟨b, _, stepRun, ends⟩
  cases ends
  rcases silent before a stepRun with ⟨isNil, holds⟩
  exact ⟨isNil, holds, rfl⟩

theorem Meets.lift (step : Checked α) :
    Meets (liftM step : StateT σ ReportM α) fun t a t' => step = .ok a ∧ t' = t := by
  intro t before a t' run
  cases step with
  | error => cases run
  | ok =>
    cases run
    exact ⟨rfl, rfl, rfl⟩

theorem Meets.get : Meets (MonadState.get : StateT σ ReportM σ) fun t a t' => a = t ∧ t' = t := by
  intro t before a t' run
  cases run
  exact ⟨rfl, rfl, rfl⟩

theorem Meets.report (group : MessageGroup) :
    Meets (liftM (reportGroup group) : StateT σ ReportM Unit) fun _ _ _ => False := by
  intro t before u t' run
  have reported : before ++ [group] = [] := congrArg (·.2) (Except.ok.inj run)
  exact (append_ne_nil_of_right_ne_nil _ (cons_ne_nil _ _) reported).elim

theorem Meets.set (t : σ) :
    Meets (MonadStateOf.set t : StateT σ ReportM PUnit) fun _ _ t' => t' = t := by
  intro t before u t' run
  cases run
  exact ⟨rfl, rfl⟩

theorem Meets.modify (change : σ → σ) :
    Meets (modify change : StateT σ ReportM PUnit) fun t _ t' => t' = change t := by
  intro t before u t' run
  cases run
  exact ⟨rfl, rfl⟩

theorem Meets.bind {next : α → StateT σ ReportM β} {first : σ → α → σ → Prop}
    {spec : σ → β → σ → Prop} (meets : Meets step first)
    (onward : ∀ a, Meets (next a) fun middle b t' => ∀ t, first t a middle → spec t b t') :
    Meets (step >>= next) spec := by
  intro t before b t' run
  rw [StateT.run_bind, run_bind_eq_ok] at run
  rcases run with ⟨⟨a, middle⟩, groups, stepRun, nextRun⟩
  rcases onward a middle groups b t' nextRun with ⟨rfl, after⟩
  rcases meets t before a middle stepRun with ⟨rfl, now⟩
  exact ⟨rfl, after t now⟩

/-- What holds before a loop and is kept by each of its steps holds after it.  It may speak of the
elements that have had their turn. -/
theorem Meets.loop {list : List α} {body : α → StateT σ ReportM (ForInStep PUnit)}
    {each : α → σ → σ → Prop}
    (step : ∀ x, Meets (body x) fun t next t' => next = .yield ⟨⟩ ∧ each x t t') :
    Meets (ForIn.forIn list PUnit.unit fun x _ => body x) fun t _ t' =>
      ∀ holds : List α → σ → Prop, holds [] t →
        (∀ done x s s', x ∈ list → holds done s → each x s s' → holds (done ++ [x]) s') →
          holds list t' := by
  induction list with
  | nil =>
    refine (Meets.pure _).mono ?_
    rintro t _ _ ⟨_, rfl⟩ holds start _
    exact start
  | cons first rest ih =>
    rw [forIn_cons]
    refine (step first).bind fun next => ?_
    cases next with
    | done u =>
      refine (Meets.pure _).mono ?_
      rintro _ _ _ _ _ ⟨notDone, _⟩
      cases notDone
    | yield u =>
      refine ih.mono ?_
      rintro middle _ t' others t ⟨_, one⟩ holds start keeps
      refine others (fun done => holds (first :: done)) ?_ fun done x s s' member =>
        keeps (first :: done) x s s' (mem_cons_of_mem _ member)
      exact keeps [] first t middle mem_cons_self start one

end Meets

/-- A definition takes a name that was free in its scope. -/
theorem meets_define (k : Nat) (w : Word) (e : Entry) :
    Meets (define k w e) fun t n t' => ∀ s, t.IsScope s k →
      t.Extends t' [⟨s, w.text.getD "", e.canonicalName⟩] ∧
        t'.LeadsTo (nested s (w.text.getD "")) n e.canonicalName := by
  refine Meets.get.bind fun now => ?_
  dsimp only
  cases next : now.next? k (w.text.getD "") with
  | some =>
    exact (Meets.report _).bind fun _ => (Meets.set (now.detached e).1).bind fun _ =>
      (Meets.pure _).mono fun _ _ _ _ _ _ _ reported => reported.elim
  | none =>
    refine (Meets.set (now.redefine k (w.text.getD "") e).1).bind fun _ =>
      (Meets.pure _).mono ?_
    rintro middle n t' ⟨rfl, rfl⟩ t rfl t ⟨rfl, rfl⟩ s isScope
    exact ⟨isScope.extends next, isScope.nested next⟩

end BinaryLayout.Scope
