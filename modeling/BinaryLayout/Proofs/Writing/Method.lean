import BinaryLayout.Proofs.Writing.Solve
import BinaryLayout.Proofs.Writing.Unwritten
import BinaryLayout.Writing.Method

/-!
# How fields are written

Finding how a virtual field is written goes from field to field until one is physical or can only
be read.  Main statement: once it is known how a field is written, either it can only be read, or
the fields that it is written through end with a physical one, and each step on the way undoes the
expression of the field that it starts from.
-/

namespace BinaryLayout.Writing

open IR Bounds Checked List

/-! ## One step -/

/-- What is known of the expressions of virtual fields when it is found how they are written. -/
structure Solvable (p : Program) (e : Expression) : Prop where
  wellTyped : WellTyped p none e
  complete : Complete p e
  plain : ∀ part, Inside e part → Expression.IsPlain part

/-- The field that an expression is solved for. -/
def SolvedFor (e : Expression) (r : FieldReference) (body : Expression) : Prop :=
  ∃ path, references e = (1, path) ∧ solve path e (writtenValue e.type) = .ok (some (r, body))

theorem SolvedFor.unique {e body body' : Expression} {r r' : FieldReference}
    (first : SolvedFor e r body) (second : SolvedFor e r' body') : r = r' := by
  rcases first with ⟨_, sole, run⟩
  rcases second with ⟨_, sole', run'⟩
  cases sole.symm.trans sole'
  cases run.symm.trans run'
  rfl

theorem solvedFor_reference (r : FieldReference) (note : Annotation) :
    SolvedFor (.fieldReference r note) r (writtenValue note.type) :=
  ⟨[], rfl, rfl⟩

section Invert

variable {p s s' : Program} {depth : Nat} {e : Expression}

variable {r : FieldReference} {body' body : Expression}

theorem solePath_eq_some {path : List Nat} :
    solePath e = some path ↔ references e = (1, path) := by
  rcases isPath : references e with ⟨_, own⟩
  simp only [solePath, isPath]
  split
  · rename_i isOne
    simp [isOne]
  · rename_i notOne
    simp [notOne]

/-- An expression that is not solved for any field leaves everything as it is; a solution gets its
bounds. -/
theorem invert_eq_ok {found : Option (FieldReference × Expression)}
    (run : (invert depth e).run s = .ok (found, s')) :
    (found = none ∧ s' = s ∧ ∀ r body, ¬ SolvedFor e r body) ∨ ∃ r body body',
      found = some (r, body') ∧ SolvedFor e r body ∧
        (compute depth body).run s = .ok (body', s') := by
  unfold invert at run
  cases isPath : solePath e with
  | none =>
    rw [isPath] at run
    cases run_pure_eq_ok.1 run
    refine .inl ⟨rfl, rfl, fun r body ⟨path, sole, _⟩ => ?_⟩
    cases isPath.symm.trans (solePath_eq_some.2 sole)
  | some path =>
    rw [isPath] at run
    rcases run_lift_bind_eq_ok.1 run with ⟨solution, solved, run⟩
    cases solution with
    | none =>
      cases run_pure_eq_ok.1 run
      refine .inl ⟨rfl, rfl, fun r body ⟨path', sole, again⟩ => ?_⟩
      cases isPath.symm.trans (solePath_eq_some.2 sole)
      cases solved.symm.trans again
    | some solution =>
      obtain ⟨_, _, computing, run⟩ := run_bind_eq_ok.1 run
      cases run_pure_eq_ok.1 run
      exact .inr ⟨_, _, _, rfl, ⟨path, solePath_eq_some.1 isPath, solved⟩, computing⟩

theorem Solvable.solution (solvable : Solvable p e) (solved : SolvedFor e r body) :
    ∃ inner, Solution e r inner (writtenValue e.type) body := by
  rcases solved with ⟨_, sole, run⟩
  exact solution_of_solve solvable.wellTyped sole run

/-- Finding the bounds of a solution changes neither the program nor the value. -/
theorem Solvable.compute (solvable : Solvable p e) (solved : SolvedFor e r body)
    (run : (compute depth body).run s = .ok (body', s')) :
    s' = s ∧ ∀ ρ here v, Evaluates p ρ here body' v ↔ Evaluates p ρ here body v := by
  rcases solvable.solution solved with ⟨_, solution⟩
  exact solution.inert solvable.wellTyped solvable.complete solvable.plain
    (inert_writtenValue e.type) depth s body' s' run

end Invert

section Step

variable {s s' : Program} {depth : Nat} {a : Address} {f : Field} {result : Unit × Program}

/-- The ways in which it is found how a field is written: what is found, and the program with
what was found on the way. -/
inductive Infers (depth : Nat) (s : Program) (f : Field) : Program → WriteMethod → Prop
  | physical (isPhysical : f.isVirtual = false) : Infers depth s f s (.physical true)
  | direct {r : FieldReference} {note : Annotation} {writable : Bool} {s' : Program}
      (isVirtual : f.isVirtual = true) (reads : f.readTransform = some (.fieldReference r note))
      (target : (isWritable depth r).run s = .ok (writable, s')) :
      Infers depth s f s' (if writable then .alias r else .readOnly true)
  | unsolved {e : Expression} {s' : Program} (isVirtual : f.isVirtual = true)
      (reads : f.readTransform = some e) (solving : (invert depth e).run s = .ok (none, s')) :
      Infers depth s f s' (.readOnly true)
  | solved {e body : Expression} {r : FieldReference} {writable : Bool} {middle s' : Program}
      (isVirtual : f.isVirtual = true) (reads : f.readTransform = some e)
      (solving : (invert depth e).run s = .ok (some (r, body), middle))
      (target : (isWritable depth r).run middle = .ok (writable, s')) :
      Infers depth s f s' (if writable then .transform ⟨some body, some r⟩ else .readOnly true)

theorem at?_of_fieldAt? (there : s.fieldAt? a = some f) : (s.at? a).bind Node.field? = some f := by
  rw [Program.at?, Node.at?_of_inner? (Program.fieldAt?_eq_some.1 there)]
  rfl

theorem run_setMethod {m : WriteMethod} :
    (setMethod a f m).run s = .ok result ↔
      result = ((), s.put a (.field { f with writeMethod := some m })) :=
  run_modify_eq_ok

theorem run_setMethod_if {writable : Bool} {m m' : WriteMethod}
    (run : (if writable = true then setMethod a f m else setMethod a f m').run s = .ok result) :
    result = ((), s.put a (.field { f with writeMethod := some (if writable then m else m') })) := by
  cases writable <;> exact run_setMethod.1 run

theorem inferMethod_eq_ok (there : s.fieldAt? a = some f)
    (run : (inferMethod depth a).run s = .ok ((), s')) :
    f.writeMethod.isSome ∧ s' = s ∨ f.writeMethod = none ∧ ∃ middle m,
      Infers depth s f middle m ∧ s' = middle.put a (.field { f with writeMethod := some m }) := by
  rw [inferMethod] at run
  obtain ⟨_, _, started, run⟩ := run_bind_eq_ok.1 run
  cases run_get_eq_ok.1 started
  rw [at?_of_fieldAt? there] at run
  dsimp only at run
  split at run
  · cases run_pure_eq_ok.1 run
    exact .inl ⟨‹_›, rfl⟩
  rename_i notSet
  refine .inr ⟨by simpa using notSet, ?_⟩
  split at run
  · rename_i isPhysical
    cases run_setMethod.1 run
    exact ⟨s, _, .physical (by simpa using isPhysical), rfl⟩
  rename_i notPhysical
  have isVirtual : f.isVirtual = true := by simpa using notPhysical
  rcases run_lift_bind_eq_ok.1 run with ⟨requirement, -, run⟩
  split at run
  · rename_i r note reads
    obtain ⟨writable, middle, target, run⟩ := run_bind_eq_ok.1 run
    cases run_setMethod_if run
    exact ⟨middle, _, .direct isVirtual reads target, rfl⟩
  · exact (run_throw_ne_ok run).elim
  · rename_i e reads _
    obtain ⟨solution, middle, solving, run⟩ := run_bind_eq_ok.1 run
    rcases solution with _ | ⟨r, body⟩
    · cases run_setMethod.1 run
      exact ⟨middle, _, .unsolved isVirtual reads solving, rfl⟩
    · obtain ⟨writable, last, target, run⟩ := run_bind_eq_ok.1 run
      cases run_setMethod_if run
      exact ⟨last, _, .solved isVirtual reads solving target, rfl⟩

end Step

/-! ## From field to field -/

/-- A reference is to the field at an address. -/
def Targets (p : Program) (r : FieldReference) (b : Address) : Prop :=
  ∃ last name g, r.path.getLast? = some last ∧ last.canonicalName = some name ∧
    p.find name = .ok ⟨b, .field g⟩

theorem Targets.unique {p : Program} {r : FieldReference} {b c : Address} (first : Targets p r b)
    (second : Targets p r c) : b = c := by
  rcases first with ⟨_, _, g, ends, isName, found⟩
  rcases second with ⟨_, _, _, ends', isName', found'⟩
  cases ends.symm.trans ends'
  cases isName.symm.trans isName'
  cases found.symm.trans found'
  rfl

/-- The expression of the virtual field at an address is solved for the field at another. -/
def Next (p : Program) (a b : Address) : Prop :=
  ∃ f e r body, p.fieldAt? a = some f ∧ f.isVirtual = true ∧ f.readTransform = some e ∧
    SolvedFor e r body ∧ Targets p r b

theorem Next.unique {p : Program} {a b c : Address} (first : Next p a b) (second : Next p a c) :
    b = c := by
  rcases first with ⟨f, e, r, _, there, _, reads, solved, targets⟩
  rcases second with ⟨_, _, _, _, there', _, reads', solved', targets'⟩
  cases there.symm.trans there'
  cases reads.symm.trans reads'
  cases solved.unique solved'
  exact targets.unique targets'

/-- The addresses of the fields that come after each other from an address on. -/
inductive Chain (p : Program) : Address → List Address → Prop
  | ends {a : Address} (stops : ∀ b, ¬ Next p a b) : Chain p a [a]
  | onward {a b : Address} {rest : List Address} (next : Next p a b) (chain : Chain p b rest) :
      Chain p a (a :: rest)

section Chain

variable {p : Program} {a b : Address} {list rest : List Address}

theorem Chain.unique {other : List Address} (chain : Chain p a list) (again : Chain p a other) :
    list = other := by
  induction chain generalizing other with
  | ends stops =>
    cases again with
    | ends => rfl
    | onward next => exact (stops _ next).elim
  | onward next chain ih =>
    cases again with
    | ends stops => exact (stops _ next).elim
    | onward next' chain' =>
      cases next.unique next'
      rw [ih chain']

theorem Chain.exists_of_mem (chain : Chain p b list) (member : a ∈ list) :
    ∃ later, Chain p a later ∧ later.length ≤ list.length := by
  induction chain with
  | ends stops =>
    cases mem_singleton.1 member
    exact ⟨_, .ends stops, Nat.le_refl _⟩
  | onward next chain ih =>
    rcases mem_cons.1 member with rfl | inRest
    · exact ⟨_, .onward next chain, Nat.le_refl _⟩
    · rcases ih inRest with ⟨later, isChain, short⟩
      exact ⟨later, isChain, Nat.le_succ_of_le short⟩

/-- No field comes after itself. -/
theorem Chain.not_mem (next : Next p a b) (chain : Chain p b rest) : a ∉ rest := by
  intro member
  rcases chain.exists_of_mem member with ⟨later, isChain, short⟩
  rw [isChain.unique (.onward next chain), length_cons] at short
  omega

end Chain

/-! ## What has been found -/

/-- A way of writing a field sends the value of a body to a reference. -/
inductive Carries (p : Program) (e : Expression) (r : FieldReference) (body : Expression) :
    WriteMethod → Prop
  | direct {note : Annotation} (isReference : e = .fieldReference r note) :
      Carries p e r body (.alias r)
  | transform {body' : Expression}
      (computed : ∃ depth s s', (compute depth body).run s = .ok (body', s'))
      (same : ∀ ρ here v, Evaluates p ρ here body' v ↔ Evaluates p ρ here body v) :
      Carries p e r body (.transform ⟨some body', some r⟩)

/-- The fields that the field at an address is written through end with a physical one, and each
step on the way undoes the expression of a field. -/
inductive Written (p s : Program) : Address → Prop
  | physical {a : Address} {f : Field} (there : s.fieldAt? a = some f)
      (isPhysical : f.isVirtual = false) (method : f.writeMethod = some (.physical true)) :
      Written p s a
  | onward {a b : Address} {f : Field} {e body : Expression} {r : FieldReference}
      {m : WriteMethod} (there : s.fieldAt? a = some f) (isVirtual : f.isVirtual = true)
      (reads : f.readTransform = some e) (solved : SolvedFor e r body)
      (method : f.writeMethod = some m) (carries : Carries p e r body m)
      (targets : Targets p r b) (rest : Written p s b) : Written p s a

/-- The fields of a program of which it is known how they are written stay as they are, and
others change only at some addresses. -/
structure Advances (list : List Address) (s s' : Program) : Prop where
  outside : ∀ c, c ∉ list → s'.fieldAt? c = s.fieldAt? c
  keeps : ∀ c f, s.fieldAt? c = some f → f.writeMethod.isSome → s'.fieldAt? c = some f

theorem Advances.refl (list : List Address) (s : Program) : Advances list s s :=
  ⟨fun _ _ => rfl, fun _ _ there _ => there⟩

theorem Written.advances {p s s' : Program} {a : Address} {list : List Address}
    (written : Written p s a) (advances : Advances list s s') : Written p s' a := by
  induction written with
  | physical there isPhysical method =>
    exact .physical (advances.keeps _ _ there (by simp [method])) isPhysical method
  | onward there isVirtual reads solved method carries targets rest ih =>
    exact .onward (advances.keeps _ _ there (by simp [method])) isVirtual reads solved method
      carries targets ih

/-- A program in which it has been found how some fields are written. -/
structure Marking (p s : Program) : Prop where
  same : SameReading p s
  written : ∀ a f, s.fieldAt? a = some f → f.writeMethod.isSome →
    f.writeMethod = some (.readOnly true) ∨ Written p s a
  chain : ∀ a f, s.fieldAt? a = some f → f.writeMethod.isSome → ∃ list, Chain p a list

section Marking

variable {p s s' : Program} {a b : Address} {f : Field} {r : FieldReference}
  {list : List Address}

/-- A field as it was before. -/
theorem Marking.original (marking : Marking p s) (there : s.fieldAt? a = some f) :
    ∃ g, p.fieldAt? a = some g ∧ g.isVirtual = f.isVirtual ∧
      g.readTransform = f.readTransform := by
  have same := marking.same.fields a
  rw [there, Option.map_some] at same
  rcases Option.map_eq_some_iff.1 same.symm with ⟨g, there', equal⟩
  have sameVirtual := congrArg Field.isVirtual equal
  have sameReads := congrArg Field.readTransform equal
  exact ⟨g, there', sameVirtual, sameReads⟩

theorem Targets.same (same : SameReading p s) (targets : Targets p r b) : Targets s r b := by
  rcases targets with ⟨last, name, g, ends, isName, found⟩
  rcases same.objects _ _ _ found with ⟨_, found', equal⟩
  rcases Object.field_of_unwritten equal with ⟨g', rfl, _⟩
  exact ⟨last, name, g', ends, isName, found'⟩

/-- Setting how a field is written of which it was not known. -/
theorem advances_put (there : s.fieldAt? a = some f) (unset : f.writeMethod = none)
    (member : a ∈ list) (m : WriteMethod) :
    Advances list s (s.put a (.field { f with writeMethod := some m })) := by
  refine ⟨fun c outside => ?_, fun c g isField isSet => ?_⟩
  · rw [fieldAt?_put there, if_neg]
    rintro rfl
    exact outside member
  · rw [fieldAt?_put there, if_neg]
    · exact isField
    · rintro rfl
      cases there.symm.trans isField
      rw [unset] at isSet
      cases isSet

theorem Marking.put {m : WriteMethod} (marking : Marking p s) (there : s.fieldAt? a = some f)
    (unset : f.writeMethod = none) (chain : Chain p a list)
    (found : m = .readOnly true ∨
      Written p (s.put a (.field { f with writeMethod := some m })) a) :
    Marking p (s.put a (.field { f with writeMethod := some m })) := by
  have advances := advances_put there unset (mem_singleton_self a) m
  refine ⟨marking.same.trans (sameReading_put there _), fun c g isField isSet => ?_,
    fun c g isField isSet => ?_⟩
  · rw [fieldAt?_put there] at isField
    split at isField
    · rename_i here
      subst here
      cases isField
      rcases found with rfl | written
      · exact .inl rfl
      · exact .inr written
    · rcases marking.written c g isField isSet with readOnly | written
      · exact .inl readOnly
      · exact .inr (written.advances advances)
  · rw [fieldAt?_put there] at isField
    split at isField
    · rename_i here
      exact here ▸ ⟨list, chain⟩
    · exact marking.chain c g isField isSet

end Marking

/-! ## All steps -/

/-- What comes of asking whether a reference is to a field that can be written. -/
inductive Decides (p : Program) (r : FieldReference) (s : Program) : Bool → Program → Prop
  | nothing (targets : ∀ b, ¬ Targets p r b) : Decides p r s false s
  | field {b : Address} {list : List Address} {writable : Bool} {s' : Program}
      (targets : Targets p r b) (chain : Chain p b list) (advances : Advances list s s')
      (marking : Marking p s') (written : writable = true → Written p s' b) :
      Decides p r s writable s'

/-- What comes of finding how a field is written. -/
structure Found (p : Program) (a : Address) (s s' : Program) : Prop where
  marking : Marking p s'
  chain : ∃ list, Chain p a list ∧ Advances list s s'
  isSet : ∃ f, s'.fieldAt? a = some f ∧ f.writeMethod.isSome

section Run

variable {p s s' middle : Program} {a : Address} {f : Field} {m : WriteMethod} {depth : Nat}

/-- The last step: what was found is set. -/
theorem Marking.found {rest : List Address} (marking : Marking p middle)
    (there : s.fieldAt? a = some f) (unset : f.writeMethod = none)
    (advances : Advances rest s middle) (apart : a ∉ rest) (chain : Chain p a (a :: rest))
    (found : m = .readOnly true ∨
      Written p (middle.put a (.field { f with writeMethod := some m })) a) :
    Found p a s (middle.put a (.field { f with writeMethod := some m })) := by
  have still : middle.fieldAt? a = some f := (advances.outside a apart).trans there
  have then' := advances_put still unset (mem_cons_self (a := a) (l := rest)) m
  refine ⟨marking.put still unset chain found, ⟨_, chain, fun c outside => ?_, ?_⟩, ?_⟩
  · rw [then'.outside c outside, advances.outside c fun member =>
      outside (mem_cons_of_mem _ member)]
  · exact fun c g isField isSet => then'.keeps c g (advances.keeps c g isField isSet) isSet
  · exact ⟨_, (fieldAt?_put still _ a).trans (if_pos rfl), rfl⟩

theorem Decides.found {e body : Expression} {r : FieldReference} {writable : Bool}
    (marking : Marking p s) (there : s.fieldAt? a = some f) (unset : f.writeMethod = none)
    (isVirtual : f.isVirtual = true) (reads : f.readTransform = some e)
    (solved : SolvedFor e r body) (decides : Decides p r s writable middle)
    (carries : writable = true → Carries p e r body m)
    (otherwise : writable = false → m = .readOnly true) :
    Found p a s (middle.put a (.field { f with writeMethod := some m })) := by
  rcases marking.original there with ⟨g, before, sameVirtual, sameReads⟩
  rw [← sameVirtual] at isVirtual
  rw [← sameReads] at reads
  cases decides with
  | nothing targets =>
    refine marking.found there unset (.refl [] s) not_mem_nil (.ends fun b next => ?_)
      (.inl (otherwise rfl))
    rcases next with ⟨_, _, r', _, there', _, reads', solved', targets'⟩
    cases before.symm.trans there'
    cases reads.symm.trans reads'
    cases solved.unique solved'
    exact targets b targets'
  | field targets chain advances marking' written =>
    have next : Next p a _ := ⟨g, e, r, body, before, isVirtual, reads, solved, targets⟩
    have apart := Chain.not_mem next chain
    refine marking'.found there unset advances apart (.onward next chain) ?_
    cases writable with
    | false => exact .inl (otherwise rfl)
    | true =>
      have still : middle.fieldAt? a = some f := (advances.outside a apart).trans there
      have further := advances_put still unset (mem_singleton_self a) m
      exact .inr (.onward ((fieldAt?_put still _ a).trans (if_pos rfl))
        (sameVirtual.symm.trans isVirtual) (sameReads.symm.trans reads) solved rfl
        (carries rfl) targets ((written rfl).advances further))

theorem isReadOnly_of_written (marking : Marking p s) (there : s.fieldAt? a = some f)
    (run : isReadOnly f = .ok false) : Written p s a := by
  simp only [isReadOnly, bind_eq_ok, Failure.require_eq_ok] at run
  rcases run with ⟨m, isSet, run⟩
  rcases marking.written a f there (by simp [isSet]) with readOnly | written
  · cases isSet.symm.trans readOnly
    cases run
  · exact written

/-- No field says yet how it is written. -/
def Unmarked (p : Program) : Prop :=
  ∀ a f, p.fieldAt? a = some f → f.writeMethod = none

variable
  (solvable : ∀ a f e, p.fieldAt? a = some f → f.readTransform = some e → Solvable p e)

include solvable

section Decided

variable
  (decides : ∀ r s w s', Marking p s → (isWritable depth r).run s = .ok (w, s') →
    Decides p r s w s')
  (marking : Marking p s) (there : s.fieldAt? a = some f)

include decides marking there

theorem found_of_infers (unset : f.writeMethod = none) (infers : Infers depth s f middle m) :
    Found p a s (middle.put a (.field { f with writeMethod := some m })) := by
  rcases marking.original there with ⟨g, before, sameVirtual, sameReads⟩
  cases infers with
  | physical isPhysical =>
    refine marking.found there unset (.refl [] s) not_mem_nil (.ends fun b next => ?_)
      (.inr (.physical ((fieldAt?_put there _ a).trans (if_pos rfl)) isPhysical rfl))
    rcases next with ⟨_, _, _, _, there', isVirtual, _⟩
    cases before.symm.trans there'
    rw [sameVirtual, isPhysical] at isVirtual
    cases isVirtual
  | @direct r note _ _ isVirtual reads target =>
    refine Decides.found marking there unset isVirtual reads (solvedFor_reference r note)
      (decides _ _ _ _ marking target) (fun isTrue => ?_) fun isFalse => ?_
    · rw [if_pos isTrue]
      exact .direct rfl
    · rw [isFalse]
      rfl
  | unsolved _ reads solving =>
    rcases invert_eq_ok solving with ⟨_, rfl, unsolved⟩ | ⟨_, _, _, ⟨⟩, _⟩
    refine marking.found there unset (.refl [] middle) not_mem_nil (.ends fun b next => ?_)
      (.inl rfl)
    rcases next with ⟨_, _, _, _, there', _, reads', solved, _⟩
    cases before.symm.trans there'
    cases (sameReads.trans reads).symm.trans reads'
    exact unsolved _ _ solved
  | @solved e _ _ _ _ _ isVirtual reads solving target =>
    rcases invert_eq_ok solving with ⟨⟨⟩, _⟩ | ⟨_, _, _, ⟨⟩, solved, computing⟩
    rcases (solvable a g e before (sameReads.trans reads)).compute solved computing with
      ⟨rfl, same⟩
    refine Decides.found marking there unset isVirtual reads solved
      (decides _ _ _ _ marking target) (fun isTrue => ?_) fun isFalse => ?_
    · rw [if_pos isTrue]
      exact .transform ⟨_, _, _, computing⟩ same
    · rw [isFalse]
      rfl

theorem found_of_inferMethod (run : (inferMethod depth a).run s = .ok ((), s')) :
    Found p a s s' := by
  rcases inferMethod_eq_ok there run with ⟨isSet, rfl⟩ | ⟨unset, _, m, infers, rfl⟩
  · rcases marking.chain a f there isSet with ⟨list, chain⟩
    exact ⟨marking, ⟨list, chain, .refl list _⟩, f, there, isSet⟩
  · exact found_of_infers solvable decides marking there unset infers

end Decided

/-- Asking whether a reference is to a field that can be written. -/
theorem decides_of_isWritable :
    ∀ depth r s w s', Marking p s → (isWritable depth r).run s = .ok (w, s') →
      Decides p r s w s' := by
  intro depth
  induction depth with
  | zero =>
    intro r s w s' marking run
    rw [isWritable] at run
    obtain ⟨_, _, _, run⟩ := run_bind_eq_ok.1 run
    obtain ⟨_, _, _, run⟩ := run_bind_eq_ok.1 run
    obtain ⟨_, _, _, run⟩ := run_bind_eq_ok.1 run
    exact (run_throw_ne_ok run).elim
  | succ depth ih =>
    intro r s w s' marking run
    rw [isWritable] at run
    obtain ⟨_, _, started, run⟩ := run_bind_eq_ok.1 run
    cases run_get_eq_ok.1 started
    rcases run_lift_bind_eq_ok.1 run with ⟨last, ends, run⟩
    rcases run_lift_bind_eq_ok.1 run with ⟨⟨b, object⟩, resolved, run⟩
    have ends := Failure.lastOf_eq_ok.1 ends
    rcases bind_eq_ok.1 resolved with ⟨name, isName, found⟩
    have isName := Failure.require_eq_ok.1 isName
    have elsewhere (other : ∀ g, object ≠ .field g) (b : Address) : ¬ Targets p r b := by
      intro targets
      rcases targets.same marking.same with ⟨_, _, g, ends', isName', found'⟩
      cases ends.symm.trans ends'
      cases isName.symm.trans isName'
      cases found.symm.trans found'
      exact other g rfl
    cases object with
    | field g =>
      have there : s.fieldAt? b = some g :=
        Program.fieldAt?_eq_some.2 (Program.inner?_of_find found)
      have targets : Targets s r b := ⟨last, name, g, ends, isName, found⟩
      obtain ⟨⟨⟩, _, inferring, run⟩ := run_bind_eq_ok.1 run
      obtain ⟨_, _, now, run⟩ := run_bind_eq_ok.1 run
      cases run_get_eq_ok.1 now
      have inferred := found_of_inferMethod solvable ih marking there inferring
      rcases inferred.isSet with ⟨h, there', _⟩
      rcases inferred.chain with ⟨_, chain, advances⟩
      rw [at?_of_fieldAt? there'] at run
      rcases run_lift_bind_eq_ok.1 run with ⟨_, isKnown, run⟩
      cases run_pure_eq_ok.1 run
      refine .field (targets.same marking.same.symm) chain advances inferred.marking ?_
      intro isWritable
      rw [Bool.not_eq_true'] at isWritable
      exact isReadOnly_of_written inferred.marking there' (isWritable ▸ isKnown)
    | _ =>
      cases run_pure_eq_ok.1 run
      exact .nothing (elsewhere fun g => Object.noConfusion)

/-- Finding how all fields are written. -/
theorem marking_of_setWriteMethods {groups : List MessageGroup} (unmarked : Unmarked p)
    (run : setWriteMethods p = .ok (s, groups)) : Marking p s := by
  have start : Marking p p := by
    have impossible {a : Address} {f : Field} (there : p.fieldAt? a = some f)
        (isSet : f.writeMethod.isSome) : False := by
      rw [unmarked a f there] at isSet
      cases isSet
    exact ⟨.refl p, fun _ _ there isSet => (impossible there isSet).elim,
      fun _ _ there isSet => (impossible there isSet).elim⟩
  simp only [setWriteMethods, bind_eq_ok] at run
  rcases run with ⟨⟨⟨⟩, _⟩, run, same⟩
  cases pure_eq_ok.1 same
  obtain ⟨_, _, run, ends⟩ := run_bind_eq_ok.1 run
  cases run_pure_eq_ok.1 ends
  refine run_loop_induction (fun _ s => Marking p s) start ?_ run
  intro done v s next s' visited marking step
  obtain ⟨⟨⟩, _, step, ends⟩ := run_bind_eq_ok.1 step
  cases run_pure_eq_ok.1 ends
  refine ⟨rfl, ?_⟩
  have isField : ∃ f, v.node = .field f := by
    have isKind : v.node.kind = .field := Program.kind_of_visit visited
    cases isNode : v.node with
    | field f => exact ⟨f, rfl⟩
    | _ =>
      rw [isNode] at isKind
      cases isKind
  rcases isField with ⟨f, isNode⟩
  have there := Node.inner?_address visited (.inr (by decide +kernel))
  have before : p.fieldAt? v.address = some f := Program.fieldAt?_eq_some.2 (isNode ▸ there)
  have same := marking.same.fields v.address
  rw [before, Option.map_some] at same
  rcases Option.map_eq_some_iff.1 same with ⟨g, there', _⟩
  exact (found_of_inferMethod solvable (decides_of_isWritable solvable _) marking there' step).marking

end Run

end BinaryLayout.Writing
