import BinaryLayout.Proofs.Expansion.Names
import BinaryLayout.Proofs.Scope.Index
import BinaryLayout.Proofs.Scope.References
import Mathlib

/-!
# Unique absolute names

Main statement: once the symbols of a program are resolved and nothing was reported, no two objects
share an absolute name, and looking one up gives the object that has it.
-/

namespace BinaryLayout.Scope

open IR List

/-! ## Names that have been defined -/

theorem isIndex_absolute {s : CanonicalName} {names : List (Option NameDefinition)}
    (named : ∀ n ∈ names, hasText n = true) (distinct : (names.map spelling).Nodup) :
    IsIndex s (names.map (absolute s)) := by
  refine ⟨?_, forall_mem_map.2 fun n member => ?_⟩
  · simpa [Function.comp_def] using distinct
  · rcases Option.isSome_iff_exists.1 (named n member) with ⟨x, isText⟩
    rcases Option.bind_eq_some_iff.1 isText with ⟨w, isWord, _⟩
    rcases Option.bind_eq_some_iff.1 isWord with ⟨d, rfl, _⟩
    exact ⟨_, x, rfl, (spelling?_absolute s _).trans isText, by simp [spelling, isText]⟩

theorem exists_of_mem_scopesIn_namedTypes {s : CanonicalName} {types : List TypeDefinition}
    {x : CanonicalName × TypeDefinition}
    (member : x ∈ scopesIn s (namedTypes ObjectSort.all s types)) :
    ∃ outer inner, (nested outer (spelling inner.name), inner) ∈ scopesIn s types ∧
      x = (nested outer (spelling inner.name), namedType ObjectSort.all outer inner) := by
  generalize named : namedTypes ObjectSort.all s types = types' at member
  induction member using scopesIn_induction generalizing types with
  | @here s _ _ isType =>
    rw [← named, namedTypes_eq_map] at isType
    rcases mem_map.1 isType with ⟨d, member, rfl⟩
    exact ⟨s, d, mem_scopesIn.2 ⟨d, member, mem_scopesOf.2 (.inl rfl)⟩, by simp⟩
  | @inside s _ _ _ isType _ ih =>
    rw [← named, namedTypes_eq_map] at isType
    rcases mem_map.1 isType with ⟨d, member, rfl⟩
    have subtypes : namedTypes ObjectSort.all (nested s (spelling d.name)) d.subtypes =
        (namedType ObjectSort.all s d).subtypes := by
      cases d
      rfl
    simp only [name_namedType, spelling_absoluteFor] at ih
    rcases ih subtypes with ⟨outer, inner, inside, same⟩
    exact ⟨outer, inner, mem_scopesIn.2 ⟨d, member, mem_scopesOf.2 (.inr inside)⟩, same⟩

theorem absoluteFor_all (sort : ObjectSort) (s : CanonicalName) (n : Option NameDefinition) :
    absoluteFor ObjectSort.all sort s n = absolute s n := by
  cases sort <;> rfl

theorem memberNames_namedType (s : CanonicalName) (d : TypeDefinition) :
    (namedType ObjectSort.all s d).memberNames =
      d.memberNames.map (absolute (nested s (spelling d.name))) := by
  rcases d with ⟨body, name, _, _, _, _, _, _⟩
  cases body <;>
    simp [namedType, TypeDefinition.memberNames, TypeBody.names, namedBody, namedParameters,
      namedTypes_eq_map, absoluteFor_all, Function.comp_def]

theorem sublist_fieldDeclarations (s : CanonicalName) (fields : List Field) :
    ((fields.map (·.name)).map fun n => (s, spelling n)).Sublist
      ((fields.flatMap (fieldDeclarations s)).map Declaration.key) := by
  induction fields with
  | nil => exact .slnil
  | cons f rest ih =>
    simp only [map_cons, flatMap_cons, map_append]
    have own : [(s, spelling f.name)].Sublist ((fieldDeclarations s f).map Declaration.key) := by
      simp [fieldDeclarations, Declaration.ofObject, Declaration.key]
    exact own.append ih

theorem sublist_declarationsOf (s : CanonicalName) (d : TypeDefinition) :
    (d.memberNames.map fun n => (s, spelling n)).Sublist
      ((ObjectSort.all.flatMap (declarationsOf s d)).map Declaration.key) := by
  rcases d with ⟨body, name, _, _, subtypes, _, parameters, _⟩
  have fields := sublist_fieldDeclarations s
  cases body with
  | record b =>
    have both := ((List.Sublist.refl (subtypes.map fun t => (s, spelling t.name))).append
      (fields b.fields)).append
      (List.Sublist.refl (parameters.map fun q => (s, spelling q.name)))
    simpa [TypeDefinition.memberNames, TypeBody.names, ObjectSort.all, declarationsOf,
      Declaration.ofObject, Declaration.key, Function.comp_def] using both
  | _ =>
    simp [TypeDefinition.memberNames, TypeBody.names, ObjectSort.all, declarationsOf,
      Declaration.ofObject, Declaration.key, Function.comp_def]

theorem nodup_memberNames {s : CanonicalName} {d : TypeDefinition}
    (distinct : ((ObjectSort.all.flatMap (declarationsOf s d)).map Declaration.key).Nodup) :
    (d.memberNames.map spelling).Nodup := by
  refine List.Nodup.of_map (Prod.mk s) ?_
  rw [map_map]
  exact distinct.sublist (sublist_declarationsOf s d)

theorem isNamed_of_mem_scopesIn {s : CanonicalName} {types : List TypeDefinition}
    (areNamed : TypeDefinition.areNamed types = true) {x : CanonicalName × TypeDefinition}
    (member : x ∈ scopesIn s types) : x.2.isNamed = true := by
  induction member using scopesIn_induction with
  | here isType => exact (TypeDefinition.areNamed_iff.1 areNamed _ isType).2
  | inside isType _ ih =>
    have isNamed := (TypeDefinition.areNamed_iff.1 areNamed _ isType).2
    exact ih (TypeDefinition.isNamed_iff.1 isNamed).2.2

/-- A program whose objects have got their absolute names is indexed if no two declarations are of
one name in one scope. -/
theorem indexed_namedProgram {p : Program} (named : p.isNamed = true)
    (files : (p.modules.map (·.fileName)).Nodup) (inFiles : ∀ m ∈ p.modules, m.fileName.isSome)
    (distinct : ((declarations p).map Declaration.key).Nodup) :
    Indexed (namedProgram ObjectSort.all p) := by
  rw [Program.isNamed, all_eq_true] at named
  rw [declarations, map_append, nodup_append] at distinct
  rcases distinct with ⟨outermost, within, _⟩
  rw [outermostDeclarations, map_flatMap, nodup_flatMap] at outermost
  rw [declarationsWithin, map_flatMap, nodup_flatMap] at within
  refine ⟨?_, forall_mem_map.2 inFiles, forall_mem_map.2 fun m member => ?_,
    forall_mem_map.2 fun m member x inside => ?_⟩
  · simpa [namedProgram, Function.comp_def] using files
  · have texts := TypeDefinition.areNamed_iff.1 (named m member)
    have names : (namedTypes ObjectSort.all (fileScope m) m.types).map (·.name) =
        (m.types.map (·.name)).map (absolute (fileScope m)) := by
      simp [namedTypes_eq_map, absoluteFor_all, Function.comp_def]
    rw [names]
    refine isIndex_absolute (forall_mem_map.2 fun d isType => (texts d isType).1) ?_
    refine List.Nodup.of_map (Prod.mk (fileScope m)) ?_
    simpa [Declaration.ofObject, Declaration.key, Function.comp_def] using outermost.1 m member
  · rcases exists_of_mem_scopesIn_namedTypes inside with ⟨_, d, isScope, rfl⟩
    have keys := within.1 m member
    rw [declarationsIn, map_flatMap, nodup_flatMap] at keys
    rw [memberNames_namedType]
    refine isIndex_absolute (fun n isMember => ?_) (nodup_memberNames (keys.1 _ isScope))
    exact TypeDefinition.hasText_of_mem (isNamed_of_mem_scopesIn (named m member) isScope) isMember

/-! ## Resolved programs -/

/-- A program whose symbols are resolved has the objects that it had, with absolute names, and is
indexed by these. -/
theorem indexed_of_resolveSymbols {p resolved : Program} (named : p.isNamed = true)
    (files : (p.modules.map (·.fileName)).Nodup)
    (run : resolveSymbols p = .ok (resolved, [])) :
    resolved.outline = (namedProgram ObjectSort.all p).outline ∧ Indexed resolved := by
  rcases resolved_of_resolveSymbols files run with ⟨distinct, inFiles, same⟩
  refine ⟨same, indexed_outline.1 ?_⟩
  rw [same]
  exact indexed_outline.2 (indexed_namedProgram named files inFiles distinct)

/-- Resolved programs have no two objects with one absolute name, and the absolute name of an
object leads to that object. -/
theorem absolute_names_unique {p expanded resolved : Program} (named : p.isNamed = true)
    (files : (p.modules.map (·.fileName)).Nodup)
    (expansion : Expansion.expand p = .ok (expanded, []))
    (resolution : resolveSymbols expanded = .ok (resolved, [])) :
    resolved.outline = (namedProgram ObjectSort.all expanded).outline ∧
      (∀ (a : Address) (o : Object), resolved.at? a = some o.node → o.node.kind ∈ Kind.declared →
        ∃ name, o.canonicalName? = some name ∧ resolved.find name = .ok ⟨a, o⟩) ∧
      ∀ (a b : Address) (o o' : Object), resolved.at? a = some o.node → o.node.kind ∈ Kind.declared →
        resolved.at? b = some o'.node → o'.node.kind ∈ Kind.declared →
        o.canonicalName? = o'.canonicalName? → a = b := by
  rcases Expansion.isNamed_expand expansion named with ⟨expandedNamed, sameFiles⟩
  rcases indexed_of_resolveSymbols expandedNamed (sameFiles ▸ files) resolution with
    ⟨same, indexed⟩
  have leads (a : Address) (o : Object) (there : resolved.at? a = some o.node)
      (isDeclared : o.node.kind ∈ Kind.declared) :
      ∃ name, o.canonicalName? = some name ∧ resolved.find name = .ok ⟨a, o⟩ :=
    find_of_holds indexed (Program.holds_of_at? there isDeclared)
  refine ⟨same, leads, fun a b o o' there isDeclared there' isDeclared' sameName => ?_⟩
  rcases leads a o there isDeclared with ⟨name, isName, found⟩
  rcases leads b o' there' isDeclared' with ⟨_, isName', found'⟩
  rw [isName, isName', Option.some.injEq] at sameName
  rw [← sameName, found] at found'
  cases found'
  rfl

def written (text : String) : Option NameDefinition :=
  some { name := some { text := some text } }

/-- An external type with a parameter, and an enumeration in it. -/
def sampleProgram : Program where
  modules := [{
    fileName := some "sample.emb"
    types := [{
      name := written "Outer"
      body := .external {}
      subtypes := [{
        name := written "Kind"
        body := .enumeration { values := [{ name := written "A" }, { name := written "B" }] } }]
      parameters := [{ name := written "n" }] }] }]

theorem absolute_names_unique_sample :
    sampleProgram.isNamed = true ∧
      Expansion.expand sampleProgram = .ok (sampleProgram, []) ∧
      resolveSymbols sampleProgram = .ok (namedProgram ObjectSort.all sampleProgram, []) ∧
      ∃ found, (namedProgram ObjectSort.all sampleProgram).find
          ⟨"sample.emb", ["Outer", "Kind", "B"]⟩ = .ok found ∧
        found.address = [⟨"module", 0⟩, ⟨"type", 0⟩, ⟨"subtype", 0⟩, ⟨"enumeration", 0⟩,
          ⟨"value", 1⟩] := by
  have named : sampleProgram.isNamed = true := by decide
  have expansion : Expansion.expand sampleProgram = .ok (sampleProgram, []) := by cbv
  have resolution : resolveSymbols sampleProgram =
      .ok (namedProgram ObjectSort.all sampleProgram, []) := by
    simp only [resolveSymbols, resolveReferences, Program.partsOf, Program.visits,
      Node.walk_eq_search]
    cbv
  refine ⟨named, expansion, resolution, ?_⟩
  rcases absolute_names_unique named (by decide) expansion resolution with ⟨_, leads, _⟩
  rcases leads [⟨"module", 0⟩, ⟨"type", 0⟩, ⟨"subtype", 0⟩, ⟨"enumeration", 0⟩, ⟨"value", 1⟩]
    (.enumValue { name := absolute ⟨"sample.emb", ["Outer", "Kind"]⟩ (written "B") }) rfl
    (by decide) with ⟨name, isName, found⟩
  cases isName
  exact ⟨_, found, rfl⟩

end BinaryLayout.Scope
