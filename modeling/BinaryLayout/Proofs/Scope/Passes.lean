import Mathlib.Data.List.Nodup
import Mathlib.Data.List.Perm.Basic
import BinaryLayout.Proofs.Scope.Declaration

/-!
# Names of a whole program

The names of a program are defined in passes, one for each sort of object.  Main statement: if
nothing is reported, every object has got its absolute name, nothing else in the program has
changed, and the table records what the program declares, no name twice in one scope.
-/

namespace BinaryLayout.Scope

open IR List

variable {sorts : List ObjectSort} {p : Program} {t : Table}

/-! ## Passes over all types -/

section Declarations

variable {s s' : CanonicalName} {sorts : List ObjectSort}

theorem fieldDeclarations_absoluteFor (f : Field) (sort : ObjectSort) :
    fieldDeclarations s { f with name := absoluteFor sorts sort s' f.name } =
      fieldDeclarations s f := by
  simp [fieldDeclarations]

/-- What a type declares does not depend on absolute names, and on the types in it only if types
are asked for. -/
theorem declarationsOf_named (d d' : TypeDefinition) {sort : ObjectSort} (other : sort ≠ .type)
    (body : d'.body = namedBody sorts s' d.body)
    (parameters : d'.parameters = namedParameters sorts s' d.parameters) :
    declarationsOf s d' sort = declarationsOf s d sort := by
  cases sort with
  | type => exact (other rfl).elim
  | value =>
    rw [declarationsOf, declarationsOf, body]
    cases d.body <;> simp [namedBody]
  | field =>
    rw [declarationsOf, declarationsOf, body]
    cases d.body <;> simp [namedBody, flatMap_map, fieldDeclarations_absoluteFor]
  | parameter => simp [declarationsOf, parameters, namedParameters]

theorem flatMap_declarationsOf {asked : List ObjectSort} (noTypes : .type ∉ asked)
    (s : CanonicalName) (d d' : TypeDefinition) (body : d'.body = namedBody sorts s' d.body)
    (parameters : d'.parameters = namedParameters sorts s' d.parameters) :
    asked.flatMap (declarationsOf s d') = asked.flatMap (declarationsOf s d) :=
  flatMap_congr fun _ member =>
    declarationsOf_named d d' (fun isType => noTypes (isType ▸ member)) body parameters

end Declarations

/-- All types of a list have scopes of their own. -/
def Table.HasScopes (t : Table) (scopes : List (CanonicalName × TypeDefinition)) : Prop :=
  ∀ x ∈ scopes, ∃ k, t.IsScope x.1 k

theorem lasting_hasScopes (scopes : List (CanonicalName × TypeDefinition)) :
    Lasting (·.HasScopes scopes) :=
  fun extends_ hasScopes x member => (hasScopes x member).imp fun _ => extends_.isScope

section InTypeScope

variable {before after : Nat → TypeDefinition → TableM TypeDefinition}
  {sorts others : List ObjectSort}

mutual

theorem declares_inTypeScope (first : NamesMembers before sorts)
    (second : NamesMembers after others) (noTypes : .type ∉ sorts ++ others) (s : CanonicalName)
    (k : Nat) (d : TypeDefinition) :
    Declares (fun t => t.IsScope s k ∧ t.HasScopes (scopesOf s d)) (inTypeScope before after k d)
      (namedType (sorts ++ others) s d) (declarationsIn (sorts ++ others) (scopesOf s d)) := by
  rcases d with ⟨body, name, properties, lines, subtypes, unit, parameters, location⟩
  refine (Meets.lift _).bind fun text => Meets.get.bind fun now => (Meets.lift _).bind
    fun number => Meets.bind (first (nested s (spelling name)) number _) fun d =>
    Meets.bind (declares_inTypeScopes first second noTypes (nested s (spelling name)) number
      subtypes) fun inner => Meets.mono (second (nested s (spelling name)) number _) ?_
  rintro t₃ d' t' atEnd t₂ inside t₁ atStart _ ⟨isNext, rfl⟩ _ ⟨rfl, rfl⟩ t ⟨isText, rfl⟩
    ⟨isScope, hasScopes⟩
  rw [Table.next_eq_ok, spelling_of_nameText isText] at isNext
  have own : t₁.IsScope (nested s (spelling name)) number := by
    rcases hasScopes _ mem_cons_self with ⟨n, isScope'⟩
    rwa [(Table.Reaches.name isScope.reached isNext).unique isScope'.reached]
  rcases atStart own with ⟨rfl, extends₁⟩
  have own₂ := extends₁.isScope own
  rcases inside ⟨own₂, lasting_hasScopes _ extends₁ fun x member =>
    hasScopes x (mem_cons_of_mem _ member)⟩ with ⟨rfl, extends₂⟩
  rcases atEnd (extends₂.isScope own₂) with ⟨rfl, extends₃⟩
  refine ⟨?_, ((extends₁.trans extends₂).trans extends₃).perm ?_⟩
  · simp [namedType, namedMembers, namedBody_namedBody, namedParameters_namedParameters,
      absoluteFor, noTypes]
  · have atFirst := flatMap_declarationsOf (fun member => noTypes (mem_append_left _ member))
      (nested s (spelling name))
      ⟨body, name, properties, lines, subtypes, unit, parameters, location⟩
      ⟨body, name, properties, lines, [], unit, parameters, location⟩
      (namedBody_nil s _).symm (namedParameters_nil s _).symm
    have atLast := flatMap_declarationsOf (fun member => noTypes (mem_append_right _ member))
      (nested s (spelling name))
      ⟨body, name, properties, lines, subtypes, unit, parameters, location⟩
      ⟨namedBody sorts (nested s (spelling name)) body, name, properties, lines,
        namedTypes (sorts ++ others) (nested s (spelling name)) subtypes, unit,
        namedParameters sorts (nested s (spelling name)) parameters, location⟩
      rfl rfl
    simp only [namedMembers, atFirst, atLast, scopesOf, declarationsIn, flatMap_cons,
      flatMap_append, append_assoc]
    exact perm_append_comm.append_left _

theorem declares_inTypeScopes (first : NamesMembers before sorts)
    (second : NamesMembers after others) (noTypes : .type ∉ sorts ++ others) (s : CanonicalName)
    (k : Nat) (types : List TypeDefinition) :
    Declares (fun t => t.IsScope s k ∧ t.HasScopes (scopesIn s types))
      (inTypeScopes before after k types) (namedTypes (sorts ++ others) s types)
      (declarationsIn (sorts ++ others) (scopesIn s types)) := by
  cases types with
  | nil => exact .pure []
  | cons d rest =>
    refine Meets.bind (declares_inTypeScope first second noTypes s k d) fun d' =>
      Meets.bind (declares_inTypeScopes first second noTypes s k rest) fun rest' =>
      (Meets.pure _).mono ?_
    rintro _ types' t' ⟨rfl, rfl⟩ middle others t one ⟨isScope, hasScopes⟩
    rcases one ⟨isScope, fun x member => hasScopes x (mem_append_left _ member)⟩
      with ⟨rfl, extends_⟩
    rcases others ⟨extends_.isScope isScope, lasting_hasScopes _ extends_ fun x member =>
      hasScopes x (mem_append_right _ member)⟩ with ⟨rfl, further⟩
    refine ⟨rfl, ?_⟩
    simpa [declarationsIn, scopesIn] using extends_.trans further

end

end InTypeScope

mutual

theorem declares_defineType (s : CanonicalName) (k : Nat) (d : TypeDefinition) :
    Declares (·.IsScope s k) (defineType k d) (namedType [.type] s d)
      (.ofObject s d.name :: declarationsIn [.type] (scopesOf s d)) := by
  rcases d with ⟨body, name, _, _, subtypes, _, _, _⟩
  refine (meets_defineObject _ _ _).bind fun r => Meets.bind
    (declares_defineTypes (nested s (spelling name)) r.2 subtypes) fun inner =>
    (Meets.pure _).mono ?_
  rintro _ d' t' ⟨rfl, rfl⟩ middle types t object isScope
  rcases object s isScope with ⟨isName, extends_, own⟩
  rcases types own with ⟨rfl, further⟩
  refine ⟨?_, ?_⟩
  · cases body <;> simp [namedType, namedBody, namedParameters, absoluteFor, isName]
  · simpa [declarationsIn, scopesOf, declarationsOf] using extends_.trans further

theorem declares_defineTypes (s : CanonicalName) (k : Nat) (types : List TypeDefinition) :
    Declares (·.IsScope s k) (defineTypes k types) (namedTypes [.type] s types)
      ((types.map fun d => .ofObject s d.name) ++
        declarationsIn [.type] (scopesIn s types)) := by
  cases types with
  | nil => exact .pure []
  | cons d rest =>
    refine ((declares_defineType s k d).bind (lasting_isScope s k) fun d' =>
      (declares_defineTypes s k rest).bind (lasting_isScope s k) fun rest' =>
      .pure (d' :: rest')).mono (fun _ => id) ?_
    simp only [append_nil, cons_append, map_cons, declarationsIn, scopesIn, flatMap_append]
    refine .cons _ ?_
    rw [← append_assoc, ← append_assoc]
    exact perm_append_comm.append_right _

end

/-! ## Absolute names do not change what is declared -/

section Named

variable (sorts : List ObjectSort)

theorem namedTypes_eq_map (s : CanonicalName) (types : List TypeDefinition) :
    namedTypes sorts s types = types.map (namedType sorts s) := by
  induction types with
  | nil => rfl
  | cons d rest ih => rw [namedTypes, ih, map_cons]

@[simp]
theorem name_namedType (s : CanonicalName) (d : TypeDefinition) :
    (namedType sorts s d).name = absoluteFor sorts .type s d.name := by
  cases d
  rfl

theorem declarationsOf_namedType (s s' : CanonicalName) (d : TypeDefinition) (sort : ObjectSort) :
    declarationsOf s (namedType sorts s' d) sort = declarationsOf s d sort := by
  rcases d with ⟨_, _, _, _, _, _, _, _⟩
  by_cases isType : sort = .type
  · subst isType
    simp [declarationsOf, namedType, namedTypes_eq_map]
  · exact declarationsOf_named _ _ isType rfl rfl

mutual

theorem map_scopesOf_namedType {α : Type} (f : CanonicalName × TypeDefinition → α)
    (invariant : ∀ s s' d, f (s, namedType sorts s' d) = f (s, d)) (s : CanonicalName)
    (d : TypeDefinition) :
    (scopesOf s (namedType sorts s d)).map f = (scopesOf s d).map f := by
  have own := invariant (nested s (spelling d.name)) s d
  rcases d with ⟨_, name, _, _, _, _, _, _⟩
  simp only [namedType, scopesOf, spelling_absoluteFor, map_cons] at own ⊢
  rw [own, map_scopesIn_namedTypes f invariant]

theorem map_scopesIn_namedTypes {α : Type} (f : CanonicalName × TypeDefinition → α)
    (invariant : ∀ s s' d, f (s, namedType sorts s' d) = f (s, d)) (s : CanonicalName)
    (types : List TypeDefinition) :
    (scopesIn s (namedTypes sorts s types)).map f = (scopesIn s types).map f := by
  cases types with
  | nil => rfl
  | cons =>
    rw [namedTypes, scopesIn, scopesIn, map_append, map_append,
      map_scopesOf_namedType f invariant, map_scopesIn_namedTypes f invariant]

end

theorem declarationsIn_namedTypes (asked : List ObjectSort) (s : CanonicalName)
    (types : List TypeDefinition) :
    declarationsIn asked (scopesIn s (namedTypes sorts s types)) =
      declarationsIn asked (scopesIn s types) := by
  rw [declarationsIn, flatMap_def, map_scopesIn_namedTypes, ← flatMap_def, declarationsIn]
  exact fun s s' d => flatMap_congr fun sort _ => declarationsOf_namedType sorts s s' d sort

theorem Table.hasScopes_namedTypes {t : Table} {s : CanonicalName} {types : List TypeDefinition} :
    t.HasScopes (scopesIn s (namedTypes sorts s types)) ↔ t.HasScopes (scopesIn s types) := by
  have same := map_scopesIn_namedTypes sorts Prod.fst (fun _ _ _ => rfl) s types
  simp only [HasScopes, ← forall_mem_map (f := Prod.fst) (P := fun s => ∃ k, t.IsScope s k), same]

mutual

theorem namedType_namedType (others : List ObjectSort) (s : CanonicalName) (d : TypeDefinition) :
    namedType others s (namedType sorts s d) = namedType (sorts ++ others) s d := by
  rcases d with ⟨_, _, _, _, _, _, _, _⟩
  simp only [namedType, spelling_absoluteFor, namedBody_namedBody, absoluteFor_absoluteFor,
    namedParameters_namedParameters, namedTypes_namedTypes others]

theorem namedTypes_namedTypes (others : List ObjectSort) (s : CanonicalName)
    (types : List TypeDefinition) :
    namedTypes others s (namedTypes sorts s types) = namedTypes (sorts ++ others) s types := by
  cases types with
  | nil => rfl
  | cons =>
    rw [namedTypes, namedTypes, namedTypes, namedType_namedType others,
      namedTypes_namedTypes others]

end

theorem namedProgram_namedProgram (others : List ObjectSort) (p : Program) :
    namedProgram others (namedProgram sorts p) = namedProgram (sorts ++ others) p := by
  simp only [namedProgram, map_map, Function.comp_def, fileScope, namedTypes_namedTypes]

end Named

/-! ## Passes over all modules -/

def Table.HasFiles (t : Table) (p : Program) : Prop :=
  ∀ m ∈ p.modules, ∃ k, t.IsScope (fileScope m) k

theorem declares_inModuleScopes {change : Nat → List TypeDefinition → TableM (List TypeDefinition)}
    (needs : CanonicalName → List TypeDefinition → Table → Prop)
    {new : CanonicalName → List TypeDefinition → List Declaration}
    (lasting : ∀ s types, Lasting (needs s types))
    (each : ∀ s k types, Declares (fun t => t.IsScope s k ∧ needs s types t) (change k types)
      (namedTypes sorts s types) (new s types)) (p : Program) :
    Declares (fun t => t.HasFiles p ∧ ∀ m ∈ p.modules, needs (fileScope m) m.types t)
      (inModuleScopes change p) (namedProgram sorts p)
      (p.modules.flatMap fun m => new (fileScope m) m.types) := by
  have one (m : Module) : Declares
      (fun t => (∃ k, t.IsScope (fileScope m) k) ∧ needs (fileScope m) m.types t)
      (do
        let scope ← (← get).next Table.root (m.fileName.getD "")
        return { m with types := ← change scope m.types })
      { m with types := namedTypes sorts (fileScope m) m.types }
      (new (fileScope m) m.types) := by
    refine Meets.get.bind fun now => (Meets.lift _).bind fun k =>
      Meets.bind (each (fileScope m) k m.types) fun types => (Meets.pure _).mono ?_
    rintro _ m' t' ⟨rfl, rfl⟩ t₁ changed _ ⟨isNext, rfl⟩ t ⟨rfl, rfl⟩ ⟨⟨k', isScope⟩, holds⟩
    rw [Table.next_eq_ok] at isNext
    obtain rfl := isScope.reached.unique (.file isNext)
    rcases changed ⟨isScope, holds⟩ with ⟨rfl, extends_⟩
    exact ⟨rfl, extends_⟩
  have lastingOne (m : Module) :
      Lasting fun t => (∃ k, t.IsScope (fileScope m) k) ∧ needs (fileScope m) m.types t :=
    fun extends_ => And.imp (Exists.imp fun _ => extends_.isScope) (lasting _ _ extends_)
  refine Meets.bind (Declares.mapM lastingOne one p.modules) fun modules =>
    (Meets.pure _).mono ?_
  rintro _ p' t' ⟨rfl, rfl⟩ t changed ⟨hasFiles, holds⟩
  rcases changed fun m member => ⟨hasFiles m member, holds m member⟩ with ⟨rfl, extends_⟩
  exact ⟨rfl, extends_⟩

/-! ## Files -/

theorem meets_defineModule (m : Module) :
    Meets (defineModule m) fun t _ t' => ∃ file, m.fileName = some file ∧
      (∃ k, t'.IsScope ⟨file, []⟩ k) ∧ ∀ other, other ≠ file →
        (∃ k, t.IsScope ⟨other, []⟩ k) → ∃ k, t'.IsScope ⟨other, []⟩ k := by
  refine (Meets.lift _).bind fun file => (Meets.modify _).mono ?_
  rintro _ _ _ rfl t ⟨isFile, rfl⟩
  refine ⟨file, Failure.require_eq_ok.1 isFile, ⟨_, Table.leadsTo_new (.file ?_)⟩, ?_⟩
  · rw [Table.next?_redefine, if_pos ⟨rfl, rfl⟩]
  · rintro other differs ⟨k, isScope⟩
    refine ⟨k, isScope.old (.file ?_)⟩
    rw [Table.next?_redefine, if_neg fun here => differs here.2]
    exact Table.reaches_file_iff.1 isScope.reached

theorem meets_defineModules (modules : List Module) :
    Meets (modules.forM defineModule) fun t _ t' => (∀ m ∈ modules, m.fileName.isSome) ∧
      ((modules.map (·.fileName)).Nodup → ∀ m ∈ modules, ∃ k, t'.IsScope (fileScope m) k) ∧
      ∀ file, some file ∉ modules.map (·.fileName) →
        (∃ k, t.IsScope ⟨file, []⟩ k) → ∃ k, t'.IsScope ⟨file, []⟩ k := by
  induction modules with
  | nil =>
    refine (Meets.pure ()).mono ?_
    rintro t _ _ ⟨rfl, rfl⟩
    simp
  | cons m rest ih =>
    refine (meets_defineModule m).bind fun _ => ih.mono ?_
    rintro middle _ t' ⟨named, scopes, kept⟩ t ⟨file, isFile, own, others⟩
    simp only [map_cons, nodup_cons, mem_cons, not_or, forall_eq_or_imp, isFile,
      Option.some.injEq, fileScope] at scopes ⊢
    exact ⟨⟨rfl, named⟩, fun ⟨fresh, distinct⟩ => ⟨kept file fresh own, scopes distinct⟩,
      fun other ⟨differs, fresh⟩ before => kept other fresh (others other differs before)⟩

theorem Meets.groups :
    Meets (getThe (List MessageGroup) : TableM _) fun t groups t' => groups = [] ∧ t' = t := by
  intro t before groups t' run
  cases run
  exact ⟨rfl, rfl, rfl⟩

/-! ## The whole program -/

/-- The declarations of the objects of some sorts in the types of a program. -/
def declarationsWithin (sorts : List ObjectSort) (p : Program) : List Declaration :=
  p.modules.flatMap fun m => declarationsIn sorts (scopesIn (fileScope m) m.types)

/-- The declarations of the types of a program that are in no other type. -/
def outermostDeclarations (p : Program) : List Declaration :=
  p.modules.flatMap fun m => m.types.map fun d => .ofObject (fileScope m) d.name

/-- Everything that a program declares. -/
def declarations (p : Program) : List Declaration :=
  outermostDeclarations p ++ declarationsWithin ObjectSort.all p

def Table.Covers (t : Table) (p : Program) : Prop :=
  t.HasFiles p ∧ ∀ m ∈ p.modules, t.HasScopes (scopesIn (fileScope m) m.types)

theorem lasting_covers (p : Program) : Lasting (·.Covers p) :=
  fun extends_ => And.imp
    (fun hasFiles m member => (hasFiles m member).imp fun _ => extends_.isScope)
    (fun hasScopes m member => lasting_hasScopes _ extends_ (hasScopes m member))

theorem Table.covers_namedProgram : t.Covers (namedProgram sorts p) ↔ t.Covers p := by
  simp only [Covers, HasFiles, namedProgram, forall_mem_map, fileScope, hasScopes_namedTypes]

@[simp]
theorem declarationsWithin_namedProgram (asked sorts : List ObjectSort) (p : Program) :
    declarationsWithin asked (namedProgram sorts p) = declarationsWithin asked p := by
  simp only [declarationsWithin, namedProgram, flatMap_map, fileScope, declarationsIn_namedTypes]

theorem declarationsWithin_append_perm (sorts others : List ObjectSort) (p : Program) :
    (declarationsWithin sorts p ++ declarationsWithin others p).Perm
      (declarationsWithin (sorts ++ others) p) := by
  refine (flatMap_append_perm _ _ _).trans (.flatMap_left _ fun m _ => ?_)
  refine (flatMap_append_perm _ _ _).trans ?_
  simp [declarationsIn]

theorem declares_defineTypes_program (p : Program) :
    Declares (·.HasFiles p) (inModuleScopes defineTypes p) (namedProgram [.type] p)
      (outermostDeclarations p ++ declarationsWithin [.type] p) := by
  refine (declares_inModuleScopes (fun _ _ _ => True) (fun _ _ => fun _ => id) (fun s k types =>
    (declares_defineTypes s k types).mono (fun _ => And.left) (.refl _)) p).mono
    (fun t hasFiles => ⟨hasFiles, fun _ _ => trivial⟩) ?_
  exact (flatMap_append_perm _ _ _).symm

theorem meets_inModuleScopes {before after : Nat → TypeDefinition → TableM TypeDefinition}
    {others : List ObjectSort} (first : NamesMembers before sorts)
    (second : NamesMembers after others) (noTypes : .type ∉ sorts ++ others) (q : Program) :
    Meets (inModuleScopes (inTypeScopes before after) q) fun t q' t' => ∀ done p,
      q = namedProgram done p → t.Covers p →
        q' = namedProgram (done ++ (sorts ++ others)) p ∧
          t.Extends t' (declarationsWithin (sorts ++ others) p) := by
  refine Meets.mono (declares_inModuleScopes (fun s types t => t.HasScopes (scopesIn s types))
    (fun _ _ => lasting_hasScopes _) (declares_inTypeScopes first second noTypes) q) ?_
  rintro t q' t' declares done p rfl covers
  rcases declares (Table.covers_namedProgram.2 covers) with ⟨rfl, extends_⟩
  exact ⟨namedProgram_namedProgram _ _ p, declarationsWithin_namedProgram _ done p ▸ extends_⟩

theorem exists_declared_of_mem_scopesIn {s : CanonicalName} {types : List TypeDefinition}
    {x : CanonicalName × TypeDefinition} (member : x ∈ scopesIn s types) :
    ∃ outer, x.1 = nested outer (spelling x.2.name) ∧
      .ofObject outer x.2.name ∈
        (types.map fun d => Declaration.ofObject s d.name) ++
          declarationsIn [.type] (scopesIn s types) := by
  induction member using scopesIn_induction with
  | @here s _ _ isType => exact ⟨s, rfl, mem_append_left _ (mem_map_of_mem isType)⟩
  | @inside s _ d _ isType _ ih =>
    rcases ih with ⟨outer, own, declared⟩
    refine ⟨outer, own, mem_append_right _ ?_⟩
    rcases mem_append.1 declared with isSubtype | deeper
    · exact mem_flatMap.2 ⟨_, mem_scopesIn.2 ⟨d, isType, mem_scopesOf.2 (.inl rfl)⟩,
        by simpa [declarationsOf] using isSubtype⟩
    · rcases mem_flatMap.1 deeper with ⟨y, inside, declared⟩
      exact mem_flatMap.2 ⟨y, mem_scopesIn.2 ⟨d, isType, mem_scopesOf.2 (.inr inside)⟩, declared⟩

/-- Once all types are declared, they have scopes of their own. -/
theorem Table.Records.covers (hasFiles : t.HasFiles p)
    (records : t.Records (outermostDeclarations p ++ declarationsWithin [.type] p)) :
    t.Covers p := by
  refine ⟨hasFiles, fun m isModule x member => ?_⟩
  rcases exists_declared_of_mem_scopesIn member with ⟨outer, own, declared⟩
  rw [own]
  refine records.leads (.ofObject outer x.2.name) ?_
  rcases mem_append.1 declared with outermost | inside
  · exact mem_append_left _ (mem_flatMap.2 ⟨m, isModule, outermost⟩)
  · exact mem_append_right _ (mem_flatMap.2 ⟨m, isModule, inside⟩)

/-- If nothing is reported, all objects have got their absolute names, and the table records
what the program declares. -/
theorem meets_defineNames (p : Program) :
    Meets (defineNames p) fun _ p' t' => (p.modules.map (·.fileName)).Nodup →
      p' = namedProgram ObjectSort.all p ∧ t'.Records (declarations p) ∧
        ∀ m ∈ p.modules, m.fileName.isSome := by
  refine (meets_defineModules p.modules).bind fun _ =>
    Meets.bind (declares_defineTypes_program p) fun p₁ => Meets.groups.bind fun groups => ?_
  cases groups with
  | cons =>
    refine (Meets.pure p₁).mono ?_
    rintro _ _ _ _ _ ⟨reported, _⟩
    cases reported
  | nil =>
    refine (meets_inModuleScopes namesMembers_defineValues namesMembers_leaveType
      (by decide) p₁).bind fun p₂ => (meets_inModuleScopes namesMembers_defineFields
      namesMembers_leaveType (by decide) p₂).bind fun p₃ => (meets_inModuleScopes
      namesMembers_leaveType namesMembers_defineParameters (by decide) p₃).mono ?_
    rintro t₃ p' t' parameters t₂ fields t₁ values _ ⟨_, rfl⟩ t₀ types t ⟨named, files, _⟩ distinct
    have hasFiles : t₀.HasFiles p := files distinct
    rcases types hasFiles with ⟨rfl, extends₁⟩
    have covers₁ := (extends₁.records (Table.records_nil t₀)).covers fun m member =>
      (hasFiles m member).imp fun _ => extends₁.isScope
    rcases values _ p rfl covers₁ with ⟨rfl, extends₂⟩
    have covers₂ := lasting_covers p extends₂ covers₁
    rcases fields _ p rfl covers₂ with ⟨rfl, extends₃⟩
    have covers₃ := lasting_covers p extends₃ covers₂
    rcases parameters _ p rfl covers₃ with ⟨rfl, extends₄⟩
    have all := ((extends₁.trans extends₂).trans (extends₃.trans extends₄)).records
      (Table.records_nil t₀)
    refine ⟨rfl, all.perm ?_, named⟩
    simp only [nil_append, append_assoc, declarations]
    refine .append_left _ (.trans (.append_left _ (.trans (.append_left _
      (declarationsWithin_append_perm _ _ p)) (declarationsWithin_append_perm _ _ p)))
      (declarationsWithin_append_perm _ _ p))

end BinaryLayout.Scope
