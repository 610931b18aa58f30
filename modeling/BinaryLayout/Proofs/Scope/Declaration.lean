import BinaryLayout.Proofs.IR.Object
import BinaryLayout.Proofs.Scope.Table

/-!
# What a program declares

Which names the objects of a program declare, in which scopes, and what a program looks like
once some sorts of its objects have got their absolute names.

Main statement: a step that gives the members of a type their names, and reports nothing, adds
what these members declare and changes nothing else.
-/

namespace BinaryLayout.Scope

open IR

/-- A name with its absolute name, given what it is defined in. -/
def absolute (s : CanonicalName) (n : Option NameDefinition) : Option NameDefinition :=
  n.map fun d => { d with canonicalName := some (nested s (spelling n)) }

@[simp]
theorem spelling?_absolute (s : CanonicalName) (n : Option NameDefinition) :
    spelling? (absolute s n) = spelling? n := by
  cases n <;> rfl

@[simp]
theorem spelling_absolute (s : CanonicalName) (n : Option NameDefinition) :
    spelling (absolute s n) = spelling n := by
  rw [spelling, spelling?_absolute, spelling]

@[simp]
theorem absolute_absolute (s : CanonicalName) (n : Option NameDefinition) :
    absolute s (absolute s n) = absolute s n := by
  cases n <;> rfl

theorem spelling_of_nameText {n : Option NameDefinition} {text : Option String}
    (isText : nameText n = .ok text) : text.getD "" = spelling n := by
  simp only [nameText, requiredText, Checked.bind_eq_ok, Failure.require_eq_ok] at isText
  rcases isText with ⟨d, rfl, w, isWord, isText⟩
  cases isText
  simp [spelling, spelling?, isWord]

/-- The declaration of an object under its own name. -/
def Declaration.ofObject (s : CanonicalName) (n : Option NameDefinition) : Declaration :=
  ⟨s, spelling n, nested s (spelling n)⟩

/-! ## Steps that declare -/

/-- A condition that lasts while a table grows. -/
def Lasting (needs : Table → Prop) : Prop :=
  ∀ {t t' : Table} {new : List Declaration}, t.Extends t' new → needs t → needs t'

/-- From the tables under a condition, a step that reports nothing comes to a certain result and
adds certain declarations. -/
def Declares {α : Type} (needs : Table → Prop) (step : TableM α) (result : α)
    (new : List Declaration) : Prop :=
  Meets step fun t a t' => needs t → a = result ∧ t.Extends t' new

section Declares

variable {α β : Type} {needs : Table → Prop}

theorem Declares.pure (a : α) : Declares needs (Pure.pure a) a [] := by
  refine (Meets.pure a).mono ?_
  rintro t _ _ ⟨rfl, rfl⟩ _
  exact ⟨rfl, .refl _⟩

theorem Declares.mono {needs' : Table → Prop} {step : TableM α} {result : α}
    {new new' : List Declaration} (declares : Declares needs step result new)
    (implies : ∀ t, needs' t → needs t) (same : new.Perm new') :
    Declares needs' step result new' :=
  Meets.mono declares fun t _ _ spec holds =>
    (spec (implies t holds)).imp_right fun extends_ => extends_.perm same

theorem Declares.bind {step : TableM α} {next : α → TableM β} {result : α} {result' : α → β}
    {new : List Declaration} {new' : α → List Declaration} (lasting : Lasting needs)
    (first : Declares needs step result new)
    (second : ∀ a, Declares needs (next a) (result' a) (new' a)) :
    Declares needs (step >>= next) (result' result) (new ++ new' result) := by
  refine Meets.bind first fun a => Meets.mono (second a) ?_
  intro middle b t' after t before holds
  rcases before holds with ⟨rfl, extends_⟩
  rcases after (lasting extends_ holds) with ⟨rfl, further⟩
  exact ⟨rfl, extends_.trans further⟩

theorem Declares.mapM {needs : α → Table → Prop} {step : α → TableM β} {result : α → β}
    {new : α → List Declaration} (lasting : ∀ a, Lasting (needs a))
    (each : ∀ a, Declares (needs a) (step a) (result a) (new a)) (list : List α) :
    Declares (fun t => ∀ a ∈ list, needs a t) (list.mapM step) (list.map result)
      (list.flatMap new) := by
  induction list with
  | nil => exact .pure []
  | cons first rest ih =>
    rw [List.mapM_cons]
    refine Meets.bind (each first) fun b => Meets.bind ih fun bs => (Meets.pure _).mono ?_
    rintro _ all t' ⟨rfl, rfl⟩ middle others t one holds
    rcases one (holds first List.mem_cons_self) with ⟨rfl, extends_⟩
    rcases others fun a member => lasting a extends_ (holds a (List.mem_cons_of_mem _ member))
      with ⟨rfl, further⟩
    exact ⟨rfl, extends_.trans further⟩

end Declares

theorem lasting_isScope (s : CanonicalName) (k : Nat) : Lasting (·.IsScope s k) :=
  fun extends_ isScope => extends_.isScope isScope

theorem meets_defineObject (k : Nat) (visibility : Visibility) (n : Option NameDefinition) :
    Meets (defineObject k visibility n) fun t r t' => ∀ s, t.IsScope s k →
      absolute s n = some r.1 ∧ t.Extends t' [.ofObject s n] ∧
        t'.IsScope (nested s (spelling n)) r.2 := by
  refine (Meets.lift _).bind fun d => (Meets.lift _).bind fun w => Meets.get.bind fun now =>
    (meets_define _ _ _).bind fun number => (Meets.pure _).mono ?_
  rintro _ r t' ⟨rfl, rfl⟩ t defined _ ⟨rfl, rfl⟩ _ ⟨isWord, rfl⟩ _ ⟨isName, rfl⟩ s isScope
  rw [Failure.require_eq_ok] at isWord isName
  subst isName
  have isSpelling : w.text.getD "" = spelling (some d) := by
    simp [spelling, spelling?, isWord]
  simp only [isSpelling, isScope.named] at defined ⊢
  exact ⟨rfl, defined s isScope⟩

/-! ## Objects -/

/-- The sorts of objects, in the order in which they get their names. -/
inductive ObjectSort where
  | type
  | value
  | field
  | parameter
deriving DecidableEq

def ObjectSort.all : List ObjectSort :=
  [.type, .value, .field, .parameter]

/-- A name with its absolute name, if its sort is among those that get one. -/
def absoluteFor (sorts : List ObjectSort) (sort : ObjectSort) (s : CanonicalName)
    (n : Option NameDefinition) : Option NameDefinition :=
  if sort ∈ sorts then absolute s n else n

/-- What a type defines, with absolute names for some sorts of objects. -/
def namedBody (sorts : List ObjectSort) (s : CanonicalName) : TypeBody → TypeBody
  | .enumeration e => .enumeration { e with
      values := e.values.map fun v => { v with name := absoluteFor sorts .value s v.name } }
  | .record r => .record { r with
      fields := r.fields.map fun f => { f with name := absoluteFor sorts .field s f.name } }
  | body => body

/-- The parameters of a type, with absolute names for some sorts of objects. -/
def namedParameters (sorts : List ObjectSort) (s : CanonicalName)
    (parameters : List RuntimeParameter) : List RuntimeParameter :=
  parameters.map fun q => { q with name := absoluteFor sorts .parameter s q.name }

mutual

/-- A type that is defined in a scope, with absolute names for some sorts of objects. -/
def namedType (sorts : List ObjectSort) (s : CanonicalName) : TypeDefinition → TypeDefinition
  | ⟨body, name, properties, lines, subtypes, unit, parameters, location⟩ =>
    let own := nested s (spelling name)
    ⟨namedBody sorts own body, absoluteFor sorts .type s name, properties, lines,
      namedTypes sorts own subtypes, unit, namedParameters sorts own parameters, location⟩

def namedTypes (sorts : List ObjectSort) (s : CanonicalName) :
    List TypeDefinition → List TypeDefinition
  | [] => []
  | d :: rest => namedType sorts s d :: namedTypes sorts s rest

end

def fileScope (m : Module) : CanonicalName :=
  ⟨m.fileName.getD "", []⟩

/-- A program with absolute names for some sorts of objects. -/
def namedProgram (sorts : List ObjectSort) (p : Program) : Program :=
  { p with modules := p.modules.map fun m =>
      { m with types := namedTypes sorts (fileScope m) m.types } }

/-! ## Declarations of objects -/

/-- The declarations of a field: its name, its abbreviation, and the name of its value inside
it. -/
def fieldDeclarations (s : CanonicalName) (f : Field) : List Declaration :=
  let own := nested s (spelling f.name)
  [.ofObject s f.name] ++ (f.abbreviation.toList.map fun w => ⟨s, w.text.getD "", own⟩) ++
    [⟨own, "this", own⟩]

/-- The declarations of the objects of some sort in a type, given the absolute name of the
type. -/
def declarationsOf (s : CanonicalName) (d : TypeDefinition) : ObjectSort → List Declaration
  | .type => d.subtypes.map fun inner => .ofObject s inner.name
  | .value =>
    match d.body with
    | .enumeration e => e.values.map fun v => .ofObject s v.name
    | _ => []
  | .field =>
    match d.body with
    | .record r => r.fields.flatMap (fieldDeclarations s)
    | _ => []
  | .parameter => d.parameters.map fun q => .ofObject s q.name

mutual

/-- A type that is defined in a scope and all types in it, with their absolute names. -/
def scopesOf (s : CanonicalName) : TypeDefinition → List (CanonicalName × TypeDefinition)
  | ⟨body, name, properties, lines, subtypes, unit, parameters, location⟩ =>
    let own := nested s (spelling name)
    (own, ⟨body, name, properties, lines, subtypes, unit, parameters, location⟩) ::
      scopesIn own subtypes

/-- Several types that are defined in a scope and all types in them, with their absolute
names. -/
def scopesIn (s : CanonicalName) : List TypeDefinition → List (CanonicalName × TypeDefinition)
  | [] => []
  | d :: rest => scopesOf s d ++ scopesIn s rest

end

/-- The declarations of the objects of some sorts in several types. -/
def declarationsIn (sorts : List ObjectSort) (scopes : List (CanonicalName × TypeDefinition)) :
    List Declaration :=
  scopes.flatMap fun (s, d) => sorts.flatMap (declarationsOf s d)

/-! ## Types in a scope -/

theorem mem_scopesOf {s : CanonicalName} {d : TypeDefinition}
    {x : CanonicalName × TypeDefinition} :
    x ∈ scopesOf s d ↔ x = (nested s (spelling d.name), d) ∨
      x ∈ scopesIn (nested s (spelling d.name)) d.subtypes := by
  cases d
  exact List.mem_cons

theorem mem_scopesIn {s : CanonicalName} {types : List TypeDefinition}
    {x : CanonicalName × TypeDefinition} :
    x ∈ scopesIn s types ↔ ∃ d ∈ types, x ∈ scopesOf s d := by
  induction types with
  | nil => simp [scopesIn]
  | cons d rest ih => simp [scopesIn, ih]

/-- A type in a scope is directly in it or in one of the types there. -/
theorem scopesIn_induction
    {motive : ∀ {s types x}, x ∈ scopesIn s types → Prop}
    (here : ∀ {s types d} (isType : d ∈ types),
      motive (s := s) (mem_scopesIn.2 ⟨d, isType, mem_scopesOf.2 (.inl rfl)⟩))
    (inside : ∀ {s types d x} (isType : d ∈ types)
      (member : x ∈ scopesIn (nested s (spelling d.name)) d.subtypes), motive member →
        motive (mem_scopesIn.2 ⟨d, isType, mem_scopesOf.2 (.inr member)⟩))
    {s : CanonicalName} {types : List TypeDefinition} {x : CanonicalName × TypeDefinition}
    (member : x ∈ scopesIn s types) : motive member := by
  rcases mem_scopesIn.1 member with ⟨d, isType, inType⟩
  rcases mem_scopesOf.1 inType with rfl | there
  · exact here isType
  · exact inside isType there (scopesIn_induction here inside there)
termination_by sizeOf types
decreasing_by
  have := List.sizeOf_lt_of_mem isType
  cases d
  simp only [TypeDefinition.mk.sizeOf_spec] at this ⊢
  omega

/-! ## Members -/

theorem declares_defineValue (s : CanonicalName) (k : Nat) (v : EnumValue) :
    Declares (·.IsScope s k) (defineValue k v) { v with name := absolute s v.name }
      [.ofObject s v.name] := by
  refine (meets_defineObject _ _ _).bind fun r => (Meets.pure _).mono ?_
  rintro _ v' t' ⟨rfl, rfl⟩ t defined isScope
  rcases defined s isScope with ⟨isName, extends_, _⟩
  exact ⟨by rw [isName], extends_⟩

theorem declares_defineParameter (s : CanonicalName) (k : Nat) (q : RuntimeParameter) :
    Declares (·.IsScope s k) (defineParameter k q) { q with name := absolute s q.name }
      [.ofObject s q.name] := by
  refine (meets_defineObject _ _ _).bind fun r => (Meets.pure _).mono ?_
  rintro _ q' t' ⟨rfl, rfl⟩ t defined isScope
  rcases defined s isScope with ⟨isName, extends_, _⟩
  exact ⟨by rw [isName], extends_⟩

theorem declares_defineField (s : CanonicalName) (k : Nat) (f : Field) :
    Declares (·.IsScope s k) (defineField k f) { f with name := absolute s f.name }
      (fieldDeclarations s f) := by
  rcases f with ⟨_, _, _, _, name, abbreviation, _⟩
  refine (meets_defineObject _ _ _).bind fun r => ?_
  have isOwn (isName : absolute s name = some r.1) :
      r.1.canonicalName.getD {} = nested s (spelling name) := by
    rcases Option.map_eq_some_iff.1 isName with ⟨d, _, same⟩
    rw [← same]
    rfl
  dsimp only
  cases abbreviation with
  | none =>
    refine (meets_define _ _ _).bind fun _ => (Meets.pure _).mono ?_
    rintro _ f' t' ⟨rfl, rfl⟩ middle this t object isScope
    rcases object s isScope with ⟨isName, extends_, inner⟩
    have further := extends_.trans (this _ inner).1
    rw [isOwn isName] at further
    exact ⟨by rw [isName], by simpa [fieldDeclarations] using further⟩
  | some w =>
    refine (meets_define _ _ _).bind fun _ => (meets_define _ _ _).bind fun _ =>
      (Meets.pure _).mono ?_
    rintro _ f' t' ⟨rfl, rfl⟩ middle this first abbreviated t object isScope
    rcases object s isScope with ⟨isName, extends_, inner⟩
    have second := (abbreviated s (extends_.isScope isScope)).1
    have further := (extends_.trans second).trans (this _ (second.isScope inner)).1
    rw [isOwn isName] at further
    exact ⟨by rw [isName], by simpa [fieldDeclarations] using further⟩

/-! ## Passes over the members of types -/

section Naming

variable (sorts others : List ObjectSort) (sort : ObjectSort) (s : CanonicalName)

theorem absoluteFor_absoluteFor (n : Option NameDefinition) :
    absoluteFor others sort s (absoluteFor sorts sort s n) =
      absoluteFor (sorts ++ others) sort s n := by
  unfold absoluteFor
  by_cases first : sort ∈ sorts <;> by_cases second : sort ∈ others <;> simp [first, second]

@[simp]
theorem spelling_absoluteFor (n : Option NameDefinition) :
    spelling (absoluteFor sorts sort s n) = spelling n := by
  unfold absoluteFor
  split <;> simp

@[simp]
theorem Declaration.ofObject_absoluteFor (s' : CanonicalName) (n : Option NameDefinition) :
    ofObject s' (absoluteFor sorts sort s n) = ofObject s' n := by
  simp [ofObject]

theorem namedBody_nil (body : TypeBody) : namedBody [] s body = body := by
  cases body <;> simp [namedBody, absoluteFor]

theorem namedParameters_nil (parameters : List RuntimeParameter) :
    namedParameters [] s parameters = parameters := by
  simp [namedParameters, absoluteFor]

theorem namedBody_namedBody (body : TypeBody) :
    namedBody others s (namedBody sorts s body) = namedBody (sorts ++ others) s body := by
  cases body <;> simp [namedBody, absoluteFor_absoluteFor]

theorem namedParameters_namedParameters (parameters : List RuntimeParameter) :
    namedParameters others s (namedParameters sorts s parameters) =
      namedParameters (sorts ++ others) s parameters := by
  simp [namedParameters, absoluteFor_absoluteFor]

/-- A type with absolute names for some sorts of its members. -/
def namedMembers (d : TypeDefinition) : TypeDefinition :=
  { d with body := namedBody sorts s d.body, parameters := namedParameters sorts s d.parameters }

end Naming

/-- A step gives some sorts of the members of a type their names. -/
def NamesMembers (step : Nat → TypeDefinition → TableM TypeDefinition)
    (sorts : List ObjectSort) : Prop :=
  ∀ s k d, Declares (·.IsScope s k) (step k d) (namedMembers sorts s d)
    (sorts.flatMap (declarationsOf s d))

theorem namesMembers_leaveType : NamesMembers leaveType [] := by
  intro s k d
  rw [namedMembers, namedBody_nil, namedParameters_nil]
  cases d
  exact .pure _

/-- The members of a list get their names one by one, and stand where they stood. -/
theorem declares_members {α β : Type} {s : CanonicalName} {k : Nat} {step : α → TableM α}
    {result : α → α} {new : α → List Declaration}
    (each : ∀ a, Declares (·.IsScope s k) (step a) (result a) (new a)) (list : List α)
    (whole : List α → β) :
    Declares (·.IsScope s k) (list.mapM step >>= fun named => pure (whole named))
      (whole (list.map result)) (list.flatMap new) := by
  have all := (Declares.mapM (fun _ => lasting_isScope s k) each list).mono
    (fun _ isScope _ _ => isScope) (.refl _)
  exact (all.bind (lasting_isScope s k) fun named => .pure (whole named)).mono (fun _ => id)
    (by rw [List.append_nil])

theorem namesMembers_defineValues : NamesMembers defineValues [.value] := by
  intro s k d
  cases isBody : d.body with
  | enumeration e =>
    have values := declares_members (declares_defineValue s k) e.values fun values =>
      { d with body := .enumeration { e with values := values } }
    simpa [defineValues, namedMembers, namedBody, namedParameters, absoluteFor, declarationsOf,
      isBody, List.map_eq_flatMap] using values
  | _ =>
    cases d
    cases isBody
    simpa [defineValues, namedMembers, namedBody, namedParameters, absoluteFor, declarationsOf]
      using Declares.pure _

theorem namesMembers_defineFields : NamesMembers defineFields [.field] := by
  intro s k d
  cases isBody : d.body with
  | record r =>
    have fields := declares_members (declares_defineField s k) r.fields fun fields =>
      { d with body := .record { r with fields := fields } }
    simpa [defineFields, namedMembers, namedBody, namedParameters, absoluteFor, declarationsOf,
      isBody] using fields
  | _ =>
    cases d
    cases isBody
    simpa [defineFields, namedMembers, namedBody, namedParameters, absoluteFor, declarationsOf]
      using Declares.pure _

theorem namesMembers_defineParameters : NamesMembers defineParameters [.parameter] := by
  intro s k d
  have all := declares_members (declares_defineParameter s k) d.parameters fun parameters =>
    { d with parameters := parameters }
  cases isBody : d.body <;>
    simpa [defineParameters, namedMembers, namedBody, namedParameters, absoluteFor,
      declarationsOf, isBody, List.map_eq_flatMap] using all

end BinaryLayout.Scope
