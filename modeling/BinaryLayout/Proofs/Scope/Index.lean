import BinaryLayout.Proofs.IR.Outline
import BinaryLayout.Proofs.Scope.Declaration

/-!
# Absolute names as an index

An absolute name is looked up from the file down, and at each type among its parameters first,
then its fields or values, then the types in it.  If no two things in one type share a name,
that order does not matter.

Main statement: in a program whose objects have such names, the absolute name of every object
leads to that object, at the address where it stands.
-/

namespace BinaryLayout.Scope

open IR Checked List

variable {modules : List Module} {m : Module} {file : String} {p : Program} {start index : Nat}
  {found : Found} {i : Nat} {n : Option NameDefinition} {inner : TypeDefinition}
  {q : RuntimeParameter}

/-- The names of all that is defined in one scope are absolute, and each is used once. -/
structure IsIndex (s : CanonicalName) (names : List (Option NameDefinition)) : Prop where
  distinct : (names.map spelling).Nodup
  absolute : ∀ n ∈ names, ∃ d x, n = some d ∧ spelling? n = some x ∧
    d.canonicalName = some (nested s x)

/-- All names of a program are absolute, and each is used once in its scope. -/
@[mk_iff]
structure Indexed (p : Program) : Prop where
  distinct : (p.modules.map (·.fileName)).Nodup
  named : ∀ m ∈ p.modules, m.fileName.isSome
  outermost : ∀ m ∈ p.modules, IsIndex (fileScope m) (m.types.map (·.name))
  members : ∀ m ∈ p.modules, ∀ x ∈ scopesIn (fileScope m) m.types,
    IsIndex x.1 x.2.memberNames

theorem nameText_of_spelling? {x : String} (isText : spelling? n = some x) :
    nameText n = .ok (some x) := by
  rcases Option.bind_eq_some_iff.1 isText with ⟨w, isWord, text⟩
  rcases Option.bind_eq_some_iff.1 isWord with ⟨d, rfl, isName⟩
  simp [nameText, requiredText, bind_eq_ok, isName, text]

section IsIndex

variable {s : CanonicalName} {names : List (Option NameDefinition)} {n : Option NameDefinition}

theorem IsIndex.nameText_eq (index : IsIndex s names) (member : n ∈ names) :
    nameText n = .ok (some (spelling n)) := by
  rcases index.absolute n member with ⟨_, x, _, isText, _⟩
  rw [nameText_of_spelling? isText, spelling, isText]
  rfl

theorem IsIndex.canonicalName (index : IsIndex s names) (member : n ∈ names) :
    ∃ d, n = some d ∧ d.canonicalName = some (nested s (spelling n)) := by
  rcases index.absolute n member with ⟨d, x, isName, isText, isAbsolute⟩
  exact ⟨d, isName, by rw [isAbsolute, spelling, isText]; rfl⟩

end IsIndex

/-! ## Looking for one name -/

section FindNamed

variable {α : Type} {nameOf : α → Checked (Option String)} {get : α → Option NameDefinition}
  {list : List α}

theorem findNamed_of_not_mem (named : ∀ a ∈ list, nameOf a = .ok (some (spelling (get a))))
    {name : String} (absent : name ∉ (list.map get).map spelling) (start : Nat) :
    findNamed nameOf name start list = .ok none := by
  induction list generalizing start with
  | nil => rfl
  | cons head tail ih =>
    rw [map_cons, map_cons, mem_cons, not_or] at absent
    rw [findNamed, named head mem_cons_self]
    have other : (some (spelling (get head)) == some name) = false := by
      simpa using fun same => absent.1 same.symm
    simp only [bind, Except.bind, other]
    exact ih (fun a member => named a (mem_cons_of_mem _ member)) absent.2 _

theorem findNamed_of_getElem? (named : ∀ a ∈ list, nameOf a = .ok (some (spelling (get a))))
    (distinct : ((list.map get).map spelling).Nodup) {a : α} (there : list[i]? = some a)
    (start : Nat) :
    findNamed nameOf (spelling (get a)) start list = .ok (some (start + i, a)) := by
  induction list generalizing start i with
  | nil => cases there
  | cons head tail ih =>
    rw [map_cons, map_cons, nodup_cons] at distinct
    rw [findNamed, named head mem_cons_self]
    cases i with
    | zero =>
      cases there
      simp [bind, Except.bind, pure, Except.pure]
    | succ i =>
      have inTail : tail[i]? = some a := there
      have other : (some (spelling (get head)) == some (spelling (get a))) = false := by
        simp only [beq_eq_false_iff_ne, ne_eq, Option.some.injEq]
        exact fun same => distinct.1 (same ▸ mem_map_of_mem
          (mem_map_of_mem (mem_of_getElem? inTail)))
      have shift : start + (i + 1) = start + 1 + i := by omega
      simp only [bind, Except.bind, other, Bool.false_eq_true, if_false]
      rw [shift]
      exact ih (fun b member => named b (mem_cons_of_mem _ member)) distinct.2 inTail _

end FindNamed

/-! ## Looking in a type -/

section FindInType

variable {s : CanonicalName} {t : TypeDefinition} {trail : List Step} {name : String}

theorem findParameter_of_not_mem (absent : name ∉ (t.parameters.map (·.name)).map spelling) :
    findParameter trail t name = .ok none := by
  have run : findNamed (fun q : RuntimeParameter => return some (q.nameText?.getD "")) name 0
      t.parameters = .ok none := findNamed_of_not_mem (fun _ _ => rfl) absent 0
  rw [findParameter, run]
  rfl

theorem findParameter_of_getElem? (distinct : ((t.parameters.map (·.name)).map spelling).Nodup)
    (there : t.parameters[i]? = some q) :
    findParameter trail t (spelling q.name) =
      .ok (some ⟨trail.reverse ++ [⟨"runtime_parameter", i⟩], .parameter q⟩) := by
  have run : findNamed (fun q : RuntimeParameter => return some (q.nameText?.getD ""))
      (spelling q.name) 0 t.parameters = .ok (some (0 + i, q)) :=
    findNamed_of_getElem? (fun _ _ => rfl) distinct there 0
  rw [findParameter, run]
  simp [bind, Except.bind, pure, Except.pure]

theorem findMember_of_not_mem
    (named : ∀ n ∈ t.body.names, nameText n = .ok (some (spelling n)))
    (absent : name ∉ t.body.names.map spelling) (rest : List String) :
    findMember trail t name rest = .ok none := by
  unfold findMember
  cases isBody : t.body with
  | unset | external => rfl
  | record b =>
    rw [isBody, TypeBody.names] at named absent
    rw [forall_mem_map] at named
    have run := findNamed_of_not_mem named absent 0
    simp only [run]
    rfl
  | enumeration e =>
    rw [isBody, TypeBody.names] at named absent
    rw [forall_mem_map] at named
    have run := findNamed_of_not_mem named absent 0
    cases rest with
    | nil =>
      simp only [run]
      rfl
    | cons => rfl

section Body

variable (named : ∀ n ∈ t.body.names, nameText n = .ok (some (spelling n)))
  (distinct : (t.body.names.map spelling).Nodup) {i : Nat}

include named distinct

theorem findMember_field {b : Structure} {f : Field} (isRecord : t.body = .record b)
    (there : b.fields[i]? = some f) :
    findMember trail t (spelling f.name) [] =
      .ok (some ⟨trail.reverse ++ [⟨"structure", 0⟩, ⟨"field", i⟩], .field f⟩) := by
  rw [isRecord, TypeBody.names] at named distinct
  rw [forall_mem_map] at named
  have run := findNamed_of_getElem? named distinct there 0
  rw [findMember, isRecord]
  simp [run, bind, Except.bind, pure, Except.pure]

theorem findMember_value {e : Enumeration} {v : EnumValue}
    (isEnumeration : t.body = .enumeration e) (there : e.values[i]? = some v) :
    findMember trail t (spelling v.name) [] =
      .ok (some ⟨trail.reverse ++ [⟨"enumeration", 0⟩, ⟨"value", i⟩], .enumValue v⟩) := by
  rw [isEnumeration, TypeBody.names] at named distinct
  rw [forall_mem_map] at named
  have run := findNamed_of_getElem? named distinct there 0
  rw [findMember, isEnumeration]
  simp [run, bind, Except.bind, pure, Except.pure]

end Body

theorem findInTypes_of_getElem? {types : List TypeDefinition}
    (named : ∀ n ∈ types.map (·.name), nameText n = .ok (some (spelling n)))
    (distinct : ((types.map (·.name)).map spelling).Nodup) (there : types[i]? = some inner)
    (list : String) (rest : List String) :
    findInTypes trail list types (spelling inner.name) rest =
      findInType (⟨list, i⟩ :: trail) inner rest := by
  rw [forall_mem_map] at named
  have run := findNamed_of_getElem? named distinct there 0
  rw [findInTypes, run]
  simp [bind, Except.bind]

theorem findInType_of_findParameter (isParameter : findParameter trail t name = .ok (some found)) :
    findInType trail t [name] = .ok (some found) := by
  rw [findInType]
  simp [isParameter, bind, Except.bind, pure, Except.pure]

theorem findInType_of_findMember (noParameter : findParameter trail t name = .ok none)
    (isMember : findMember trail t name [] = .ok (some found)) :
    findInType trail t [name] = .ok (some found) := by
  rw [findInType]
  simp [noParameter, isMember, bind, Except.bind, pure, Except.pure]

theorem findInType_of_none {rest : List String} (noParameter : findParameter trail t name = .ok none)
    (noMember : findMember trail t name rest = .ok none) :
    findInType trail t (name :: rest) = findInTypes trail "subtype" t.subtypes name rest := by
  rw [findInType]
  cases rest <;> simp [noParameter, noMember, bind, Except.bind, pure, Except.pure]

end FindInType

/-! ## Where absolute names lead -/

section Lead

variable {s : CanonicalName} {t : TypeDefinition} {trail : List Step} {i : Nat}

/-- No name is shared between the parts of a type. -/
theorem IsIndex.apart (index : IsIndex s t.memberNames) :
    (((t.subtypes.map (·.name)).map spelling).Nodup ∧ (t.body.names.map spelling).Nodup ∧
      ((t.parameters.map (·.name)).map spelling).Nodup) ∧
      (∀ x ∈ (t.subtypes.map (·.name)).map spelling,
        x ∉ t.body.names.map spelling ∧ x ∉ (t.parameters.map (·.name)).map spelling) ∧
      ∀ x ∈ t.body.names.map spelling, x ∉ (t.parameters.map (·.name)).map spelling := by
  have distinct := index.distinct
  rw [TypeDefinition.memberNames, map_append, map_append, nodup_append, nodup_append] at distinct
  rcases distinct with ⟨⟨subtypes, body, fromBody⟩, parameters, fromParameters⟩
  refine ⟨⟨subtypes, body, parameters⟩, fun x isSubtype => ⟨?_, ?_⟩, fun x isMember => ?_⟩
  · exact fun isMember => fromBody x isSubtype x isMember rfl
  · exact fun isParameter =>
      fromParameters x (mem_append_left _ isSubtype) x isParameter rfl
  · exact fun isParameter =>
      fromParameters x (mem_append_right _ isMember) x isParameter rfl

theorem IsIndex.nameText_body (index : IsIndex s t.memberNames) :
    ∀ n ∈ t.body.names, nameText n = .ok (some (spelling n)) :=
  fun _ member => index.nameText_eq (mem_append_left _ (mem_append_right _ member))

theorem findInType_member (index : IsIndex s t.memberNames) (inBody : n ∈ t.body.names)
    (isMember : findMember trail t (spelling n) [] = .ok (some found)) :
    findInType trail t [spelling n] = .ok (some found) := by
  rcases index.apart with ⟨_, _, notParameter⟩
  exact findInType_of_findMember
    (findParameter_of_not_mem (notParameter _ (mem_map_of_mem inBody))) isMember

theorem findInType_parameter (index : IsIndex s t.memberNames) (there : t.parameters[i]? = some q) :
    findInType trail t [spelling q.name] =
      .ok (some ⟨trail.reverse ++ [⟨"runtime_parameter", i⟩], .parameter q⟩) := by
  rcases index.apart with ⟨⟨_, _, parameters⟩, _⟩
  exact findInType_of_findParameter (findParameter_of_getElem? parameters there)

theorem findInType_subtype (index : IsIndex s t.memberNames) (there : t.subtypes[i]? = some inner)
    (rest : List String) :
    findInType trail t (spelling inner.name :: rest) =
      findInType (⟨"subtype", i⟩ :: trail) inner rest := by
  rcases index.apart with ⟨⟨subtypes, _⟩, notElsewhere, _⟩
  have member : spelling inner.name ∈ (t.subtypes.map (·.name)).map spelling :=
    mem_map_of_mem (mem_map_of_mem (mem_of_getElem? there))
  rcases notElsewhere _ member with ⟨notMember, notParameter⟩
  rw [findInType_of_none (findParameter_of_not_mem notParameter)
    (findMember_of_not_mem index.nameText_body notMember rest)]
  exact findInTypes_of_getElem? (fun n member => index.nameText_eq
    (mem_append_left _ (mem_append_left _ member))) subtypes there "subtype" rest

theorem findInType_of_holds {a : Address} {o : Object} (holds : t.Holds a o)
    (indexed : ∀ x ∈ scopesOf s t, IsIndex x.1 x.2.memberNames)
    (own : ∃ d, t.name = some d ∧ d.canonicalName = some (nested s (spelling t.name)))
    (trail : List Step) :
    ∃ path d, o.name = some d ∧
      d.canonicalName = some ⟨s.file, s.path ++ spelling t.name :: path⟩ ∧
      findInType trail t path = .ok (some ⟨trail.reverse ++ a, o⟩) := by
  have absolute {s : CanonicalName} {t : TypeDefinition} {n : Option NameDefinition}
      (index : IsIndex (nested s (spelling t.name)) t.memberNames) (member : n ∈ t.memberNames) :
      ∃ d, n = some d ∧
        d.canonicalName = some ⟨s.file, s.path ++ spelling t.name :: [spelling n]⟩ := by
    rcases index.canonicalName member with ⟨d, isName, isAbsolute⟩
    exact ⟨d, isName, by rw [isAbsolute]; simp [nested]⟩
  induction holds generalizing s trail with
  | self t =>
    rcases own with ⟨d, isName, isAbsolute⟩
    refine ⟨[], d, isName, isAbsolute, ?_⟩
    rw [findInType]
    simp [pure, Except.pure]
  | @field t b i f isRecord there =>
    have index := indexed _ (mem_scopesOf.2 (.inl rfl))
    have inBody : f.name ∈ t.body.names := by
      rw [isRecord]
      exact mem_map_of_mem (mem_of_getElem? there)
    rcases absolute index (mem_append_left _ (mem_append_right _ inBody)) with
      ⟨d, isName, isAbsolute⟩
    exact ⟨_, d, isName, isAbsolute, findInType_member index inBody
      (findMember_field index.nameText_body index.apart.1.2.1 isRecord there)⟩
  | @value t e i v isEnumeration there =>
    have index := indexed _ (mem_scopesOf.2 (.inl rfl))
    have inBody : v.name ∈ t.body.names := by
      rw [isEnumeration]
      exact mem_map_of_mem (mem_of_getElem? there)
    rcases absolute index (mem_append_left _ (mem_append_right _ inBody)) with
      ⟨d, isName, isAbsolute⟩
    exact ⟨_, d, isName, isAbsolute, findInType_member index inBody
      (findMember_value index.nameText_body index.apart.1.2.1 isEnumeration there)⟩
  | @parameter t i q there =>
    have index := indexed _ (mem_scopesOf.2 (.inl rfl))
    have member : q.name ∈ t.memberNames :=
      mem_append_right _ (mem_map_of_mem (mem_of_getElem? there))
    rcases absolute index member with ⟨d, isName, isAbsolute⟩
    exact ⟨_, d, isName, isAbsolute, findInType_parameter index there⟩
  | @subtype t inner i _ _ there _ ih =>
    have index := indexed _ (mem_scopesOf.2 (.inl rfl))
    have isSubtype := mem_of_getElem? there
    have member : inner.name ∈ t.memberNames :=
      mem_append_left _ (mem_append_left _ (mem_map_of_mem isSubtype))
    rcases ih (fun x isInside =>
      indexed x (mem_scopesOf.2 (.inr (mem_scopesIn.2 ⟨_, isSubtype, isInside⟩))))
      (index.canonicalName member) (⟨"subtype", i⟩ :: trail) with
      ⟨path, d, isName, isAbsolute, leads⟩
    refine ⟨spelling inner.name :: path, d, isName, by simpa [nested] using isAbsolute, ?_⟩
    rw [findInType_subtype index there, leads]
    simp

end Lead

theorem findModule_of_getElem? (distinct : (modules.map (·.fileName)).Nodup)
    (there : modules[i]? = some m) (isFile : m.fileName = some file) (start : Nat) :
    Program.findModule file start modules = some (start + i, m) := by
  induction modules generalizing start i with
  | nil => cases there
  | cons head tail ih =>
    rw [map_cons, nodup_cons] at distinct
    rw [Program.findModule]
    cases i with
    | zero =>
      cases there
      simp [isFile]
    | succ i =>
      have inTail : tail[i]? = some m := there
      have other : head.fileName ≠ some file := fun same => distinct.1
        (same.trans isFile.symm ▸ mem_map_of_mem (mem_of_getElem? inTail))
      have shift : start + (i + 1) = start + 1 + i := by omega
      rw [if_neg (by simpa using other), shift]
      exact ih distinct.2 inTail _

theorem find_of_holds (indexed : Indexed p) {a : Address} {o : Object} (holds : p.Holds a o) :
    ∃ name, o.canonicalName? = some name ∧ p.find name = .ok ⟨a, o⟩ := by
  rcases holds with @⟨i, j, m, t, a, o, isModule, isType, inside⟩
  have moduleMember := mem_of_getElem? isModule
  have typeMember := mem_of_getElem? isType
  have outermost := indexed.outermost m moduleMember
  rcases Option.isSome_iff_exists.1 (indexed.named m moduleMember) with ⟨_, isFile⟩
  rcases findInType_of_holds inside (fun x isInside =>
    indexed.members m moduleMember x (mem_scopesIn.2 ⟨_, typeMember, isInside⟩))
    (outermost.canonicalName (mem_map_of_mem typeMember)) [⟨"type", j⟩, ⟨"module", i⟩]
    with ⟨path, d, isName, isAbsolute, leads⟩
  refine ⟨_, Option.bind_eq_some_iff.2 ⟨d, isName, isAbsolute⟩, ?_⟩
  have inModule := findModule_of_getElem? indexed.distinct isModule isFile 0
  have inTypes : findInTypes [⟨"module", i⟩] "type" m.types (spelling t.name) path =
      findInType [⟨"type", j⟩, ⟨"module", i⟩] t path :=
    findInTypes_of_getElem? (fun n member => outermost.nameText_eq member) outermost.distinct
      isType "type" path
  rw [Nat.zero_add] at inModule
  simp only [Program.find, Program.find?, fileScope, isFile, Option.getD_some, nil_append,
    Program.findPath, inModule, inTypes, leads]
  rfl

/-! ## Indexes and outlines -/

section Outline

open TypeDefinition (outlines)

theorem memberNames_outline (t : TypeDefinition) : t.outline.memberNames = t.memberNames := by
  rcases t with ⟨body, name, _, _, subtypes, _, _, _⟩
  have inner : (outlines subtypes).map (·.name) = subtypes.map (·.name) := by
    rw [TypeDefinition.outlines_eq_map, map_map]
    refine map_congr_left fun t _ => ?_
    cases t
    rfl
  have members : body.outline.names = body.names := by
    cases body <;>
      simp [TypeBody.outline, TypeBody.names, Structure.outline, Enumeration.outline,
        Field.outline, EnumValue.outline]
  simp [TypeDefinition.outline, TypeDefinition.memberNames, inner, members,
    RuntimeParameter.outline]

mutual

theorem scopesOf_outline (s : CanonicalName) (t : TypeDefinition) :
    scopesOf s t.outline = (scopesOf s t).map fun x => (x.1, x.2.outline) := by
  rcases t with ⟨_, _, _, _, _, _, _, _⟩
  simp only [TypeDefinition.outline, scopesOf, map_cons, scopesIn_outlines]

theorem scopesIn_outlines (s : CanonicalName) (types : List TypeDefinition) :
    scopesIn s (outlines types) = (scopesIn s types).map fun x => (x.1, x.2.outline) := by
  cases types with
  | nil => rfl
  | cons =>
    rw [outlines, scopesIn, scopesIn, map_append, scopesOf_outline, scopesIn_outlines]

end

theorem indexed_outline : Indexed p.outline ↔ Indexed p := by
  have names (m : Module) : m.outline.types.map (·.name) = m.types.map (·.name) := by
    rw [Module.outline, TypeDefinition.outlines_eq_map, map_map]
    refine map_congr_left fun t _ => ?_
    cases t
    rfl
  have scopes (m : Module) : scopesIn (fileScope m.outline) m.outline.types =
      (scopesIn (fileScope m) m.types).map fun x => (x.1, x.2.outline) :=
    scopesIn_outlines _ _
  simp only [indexed_iff, Program.outline, map_map, forall_mem_map, names, scopes,
    memberNames_outline]
  rfl

end Outline

end BinaryLayout.Scope
