import BinaryLayout.Proofs.IR.Shape
import BinaryLayout.Proofs.Scope.Passes
import BinaryLayout.Scope.Resolve

/-!
# Programs whose symbols are resolved

A reference that has got its absolute name is put in the place of the one that it was.

Main statement: if nothing is reported, a program has got the absolute names of its objects, no name
is declared twice in one scope, and resolving the references has moved or renamed no object.
-/

namespace BinaryLayout.Scope

open IR Checked List Node

/-! ## Nothing that was reported is taken back -/

section Grows

variable (t : Table) (s : Surroundings) (r : Reference)

theorem grows_searchScopes (current : CanonicalName) (name : String) (found : Option Nat)
    (scopes : List CanonicalName) : Grows (searchScopes t s current r name found scopes) := by
  induction scopes generalizing found with
  | nil => exact .pure _
  | cons scope rest ih =>
    refine .bind (.lift _) fun k => ?_
    dsimp only
    split
    · exact ih _
    · split
      · exact ih _
      · split
        · exact .bind (.reportGroup _) fun _ => ih _
        · split
          · exact .pure _
          · exact ih _

theorem grows_followNames (file : String) (k : Nat) (words : List Word) :
    Grows (followNames t file k words) := by
  induction words generalizing k with
  | nil => exact .pure _
  | cons w rest ih =>
    rw [followNames]
    split
    · exact .bind (.reportGroup _) fun _ => .pure _
    · split
      · exact ih _
      · exact .bind (.lift _) fun k => ih k

theorem grows_resolveReference : Grows (resolveReference t s r) := by
  rw [resolveReference]
  split
  · exact .throw _
  · split
    · exact .pure _
    · refine .bind (.lift _) fun first => .bind (grows_searchScopes t s r _ _ _ _) fun found => ?_
      split
      · exact .bind (.reportGroup _) fun _ => .pure _
      · refine .bind .get fun groups => ?_
        split
        · exact .pure _
        · exact .bind (grows_followNames t _ _ _) fun _ => .pure _

end Grows

/-! ## References are put in the place of others -/

/-- There are references at the same places in two programs, with the same objects around them. -/
def SameObjects (p q : Program) : Prop :=
  (Node.program q).shape Node.outline .reference = (Node.program p).shape Node.outline .reference

/-- At most the reference at an address is replaced. -/
def Replaces (a : Address) (q q' : Program) : Prop :=
  q' = q ∨ ∃ r, q' = q.put a (.reference r)

variable {p q q' resolved : Program} {a : Address}

theorem SameObjects.replaces {r : Reference} (same : SameObjects p q)
    (there : p.at? a = some (.reference r)) (replaces : Replaces a q q') : SameObjects p q' := by
  rcases replaces with rfl | ⟨r', rfl⟩
  · exact same
  · rcases reference_of_shape same.symm there with ⟨_, there'⟩
    rw [SameObjects, Program.program_putReference there', shape_update_reference _ there']
    exact same

theorem meets_resolveAt (t : Table) (s : Surroundings) (a : Address) (r : Reference) :
    Meets (resolveAt t s a r) fun q _ q' => Replaces a q q' := by
  refine (Meets.ofReport fun before name? run =>
    ⟨(grows_resolveReference t s r).eq_nil run, trivial⟩).bind fun name? => ?_
  cases name? with
  | none =>
    refine (Meets.pure _).mono ?_
    rintro _ _ _ ⟨_, rfl⟩ _ ⟨_, rfl⟩
    exact .inl rfl
  | some name =>
    refine (Meets.modify _).mono ?_
    rintro _ _ _ rfl _ ⟨_, rfl⟩
    exact .inr ⟨_, rfl⟩

theorem exists_at?_of_mem_partsOf {α : Type} {project : Node → Option α} {k : Kind}
    {skip : List Kind} {x : Visit × α} (member : x ∈ p.partsOf project [k] skip) :
    ∃ n, p.at? x.1.address = some n ∧ project n = some x.2 := by
  rcases mem_filterMap.1 member with ⟨v, visited, isPart⟩
  rcases Option.map_eq_some_iff.1 isPart with ⟨_, isProjected, rfl⟩
  exact ⟨v.node, at?_of_visitAt (Program.mem_visits_kind.1 visited).1, isProjected⟩

/-- Steps that put references in the places of others move and rename nothing. -/
theorem meets_replacing {α : Type} {list : List α} {body : α → ResolveM (ForInStep PUnit)}
    {place : α → Address} {isThere : α → Prop}
    (step : ∀ x, Meets (body x) fun q next q' =>
      next = .yield ⟨⟩ ∧ isThere x ∧ Replaces (place x) q q') :
    Meets (forIn list PUnit.unit fun x _ => body x) fun q₀ _ q => ∀ p,
      (∀ x ∈ list, isThere x → ∃ r, p.at? (place x) = some (.reference r)) →
        SameObjects p q₀ → SameObjects p q := by
  refine (Meets.loop step).mono fun q₀ _ q loop p there same => ?_
  refine loop (fun _ q => SameObjects p q) same ?_
  rintro _ x q q' member same ⟨isThere, replaces⟩
  rcases there x member isThere with ⟨_, isReference⟩
  exact same.replaces isReference replaces

theorem meets_resolveOne (t : Table) (x : Visit × Reference) :
    Meets (do
        resolveAt t (surroundings x.1) x.1.address x.2
        pure (ForInStep.yield PUnit.unit)) fun q next q' =>
      next = .yield ⟨⟩ ∧ True ∧ Replaces x.1.address q q' := by
  refine (meets_resolveAt t _ _ _).bind fun _ => (Meets.pure _).mono ?_
  rintro _ _ _ ⟨rfl, rfl⟩ _ replaces
  exact ⟨rfl, trivial, replaces⟩

theorem meets_resolveHead (t : Table) (x : Visit × FieldReference) :
    Meets (do
        if (surroundings x.1).current.isNone then throw Failure.invariant
        let head ← Failure.element x.2.path 0
        resolveAt t (surroundings x.1) (x.1.address ++ [⟨"path", 0⟩]) head
        pure (ForInStep.yield PUnit.unit)) fun q next q' => next = .yield ⟨⟩ ∧
      (∃ r, x.2.path[0]? = some r) ∧ Replaces (x.1.address ++ [⟨"path", 0⟩]) q q' := by
  dsimp only
  split
  · intro _ _ _ _ run
    cases run
  · refine (Meets.lift _).bind fun head => (meets_resolveAt t _ _ _).bind fun _ =>
      (Meets.pure _).mono ?_
    rintro _ _ _ ⟨rfl, rfl⟩ _ replaces _ ⟨isHead, rfl⟩
    exact ⟨rfl, ⟨head, Failure.element_eq_ok.1 isHead⟩, replaces⟩

theorem meets_resolveReferences (t : Table) :
    Meets (resolveReferences t) fun p _ q => SameObjects p q := by
  refine Meets.get.bind fun _ => (meets_replacing (meets_resolveOne t)).bind fun _ =>
    Meets.get.bind fun _ => (meets_replacing (meets_resolveHead t)).bind fun _ =>
      (Meets.pure _).mono ?_
  rintro _ _ q ⟨_, rfl⟩ middle heads _ ⟨rfl, rfl⟩ start outside _ ⟨rfl, rfl⟩
  have first : SameObjects start middle := by
    refine outside start (fun x member _ => ⟨x.2, ?_⟩) rfl
    rcases exists_at?_of_mem_partsOf member with ⟨n, there, isPart⟩
    cases n <;> cases isPart
    exact there
  have second : SameObjects middle q := by
    refine heads middle ?_ rfl
    rintro x member ⟨r, isHead⟩
    rcases exists_at?_of_mem_partsOf member with ⟨n, there, isPart⟩
    cases n <;> cases isPart
    refine ⟨r, ?_⟩
    rw [Program.at?, at?_append, ← Program.at?, there]
    have isChild : (⟨"path", 0⟩, .reference r) ∈ (Node.fieldReference x.2).children :=
      mem_childrenIn_iff.2 ⟨0, r, rfl, isHead, rfl⟩
    rw [Option.bind_some, at?, child?_of_mem isChild]
    rfl
  exact second.trans first

/-! ## The whole resolution -/

/-- The stages of a resolution after which nothing has been reported. -/
theorem resolveSymbols_eq_ok (run : resolveSymbols p = .ok (resolved, [])) :
    ∃ named t t', ((defineNames p).run Table.empty).run [] = .ok ((named, t), []) ∧
      ((resolveReferences t').run named).run [] = .ok (((), resolved), []) := by
  rcases bind_eq_ok.1 run with ⟨⟨⟨named, t⟩, groups⟩, define, run⟩
  cases groups with
  | cons => cases run
  | nil =>
    rcases bind_eq_ok.1 run with ⟨⟨⟨_, t'⟩, groups⟩, _, run⟩
    cases groups with
    | cons => cases run
    | nil =>
      rcases bind_eq_ok.1 run with ⟨⟨⟨_, p'⟩, groups⟩, resolve, run⟩
      cases run
      exact ⟨named, t, t', define, resolve⟩

/-- A program whose symbols are resolved without a report declares no name twice, and has the
objects that it had, with absolute names. -/
theorem resolved_of_resolveSymbols (files : (p.modules.map (·.fileName)).Nodup)
    (run : resolveSymbols p = .ok (resolved, [])) :
    ((declarations p).map Declaration.key).Nodup ∧ (∀ m ∈ p.modules, m.fileName.isSome) ∧
      resolved.outline = (namedProgram ObjectSort.all p).outline := by
  rcases resolveSymbols_eq_ok run with ⟨_, t, t', define, resolve⟩
  rcases meets_defineNames p _ _ _ _ define with ⟨_, named⟩
  rcases named files with ⟨rfl, records, inFiles⟩
  have same := (meets_resolveReferences t' _ _ _ _ resolve).2
  exact ⟨records.nodup, inFiles, Node.program.inj (Node.alike_of_shape same).label⟩

end BinaryLayout.Scope
