import BinaryLayout.IR.Find
import BinaryLayout.Proofs.Checked

/-!
# The skeleton of a program

The skeleton of a program is what names lead through: types with their fields, values, parameters
and inner types.  Expressions, attributes and all that is only read for its own sake are left out;
of the size and the place of a field it is kept that there is one.

Main statement: looking up a name in a skeleton finds the skeleton of what the name stands for, at
the same address.  So a step that changes expressions only leads every name to the same place.
-/

namespace BinaryLayout.IR

/-- An expression of which nothing is kept but that it is there. -/
def Expression.trace (_ : Expression) : Expression :=
  .unset {}

/-- The name of a type, and whether it has a size of its own. -/
def TypeSpec.skeleton : TypeSpec → TypeSpec
  | .unset size _ => .unset (size.map Expression.trace) none
  | .atomic atom size _ =>
    .atomic { reference := atom.reference } (size.map Expression.trace) none
  | .array _ _ _ size _ => .array none .unset none (size.map Expression.trace) none

def Field.skeleton (f : Field) : Field where
  placement := f.placement.map fun _ => {}
  type := f.type.map TypeSpec.skeleton
  name := f.name

def EnumValue.skeleton (v : EnumValue) : EnumValue where
  name := v.name

def RuntimeParameter.skeleton (q : RuntimeParameter) : RuntimeParameter where
  name := q.name
  physicalType := q.physicalType.map TypeSpec.skeleton

def Structure.skeleton (s : Structure) : Structure where
  fields := s.fields.map Field.skeleton

def Enumeration.skeleton (e : Enumeration) : Enumeration where
  values := e.values.map EnumValue.skeleton

def TypeBody.skeleton : TypeBody → TypeBody
  | .unset => .unset
  | .external _ => .external {}
  | .enumeration e => .enumeration e.skeleton
  | .record s => .record s.skeleton

mutual

def TypeDefinition.skeleton : TypeDefinition → TypeDefinition
  | ⟨body, name, _, _, subtypes, unit, parameters, _⟩ =>
    { body := body.skeleton, name := name, subtypes := skeletons subtypes, unit := unit,
      parameters := parameters.map RuntimeParameter.skeleton }

def TypeDefinition.skeletons : List TypeDefinition → List TypeDefinition
  | [] => []
  | t :: rest => t.skeleton :: skeletons rest

end

def Module.skeleton (m : Module) : Module where
  types := TypeDefinition.skeletons m.types
  fileName := m.fileName

def Program.skeleton (p : Program) : Program where
  modules := p.modules.map Module.skeleton

def Object.skeleton : Object → Object
  | .moduleFile m => .moduleFile m.skeleton
  | .definition t => .definition t.skeleton
  | .field f => .field f.skeleton
  | .enumValue v => .enumValue v.skeleton
  | .parameter q => .parameter q.skeleton

def Found.skeleton (found : Found) : Found :=
  ⟨found.address, found.object.skeleton⟩

namespace TypeDefinition

theorem skeletons_eq_map (types : List TypeDefinition) : skeletons types = types.map skeleton := by
  induction types with
  | nil => rfl
  | cons _ _ ih => rw [skeletons, ih, List.map_cons]

variable (t : TypeDefinition)

@[simp]
theorem name_skeleton : t.skeleton.name = t.name := by
  cases t
  rfl

@[simp]
theorem unit_skeleton : t.skeleton.unit = t.unit := by
  cases t
  rfl

@[simp]
theorem body_skeleton : t.skeleton.body = t.body.skeleton := by
  cases t
  rfl

@[simp]
theorem parameters_skeleton :
    t.skeleton.parameters = t.parameters.map RuntimeParameter.skeleton := by
  cases t
  rfl

@[simp]
theorem subtypes_skeleton : t.skeleton.subtypes = t.subtypes.map skeleton := by
  cases t
  exact skeletons_eq_map _

end TypeDefinition

@[simp]
theorem Field.isVirtual_skeleton (f : Field) : f.skeleton.isVirtual = f.isVirtual := by
  simp [isVirtual, skeleton]

/-! ## Names lead through the skeleton -/

theorem findNamed_map {α β : Type} (change : α → β) (nameOf : α → Checked (Option String))
    (nameAfter : β → Checked (Option String)) (same : ∀ a, nameAfter (change a) = nameOf a)
    (name : String) (index : Nat) (list : List α) :
    findNamed nameAfter name index (list.map change) =
      (Option.map fun (found : Nat × α) => (found.1, change found.2)) <$>
        findNamed nameOf name index list := by
  induction list generalizing index with
  | nil => rfl
  | cons head tail ih =>
    simp only [List.map_cons, findNamed, same, ih]
    cases nameOf head with
    | error => rfl
    | ok text =>
      by_cases found : (text == some name) = true
      · simp [bind, Except.bind, found, pure, Except.pure, Functor.map, Except.map]
      · simp [bind, Except.bind, found]

theorem findParameter_skeleton (trail : List Step) (t : TypeDefinition) (name : String) :
    findParameter trail t.skeleton name =
      Option.map Found.skeleton <$> findParameter trail t name := by
  simp only [findParameter, TypeDefinition.parameters_skeleton]
  rw [findNamed_map RuntimeParameter.skeleton (fun q => return some (q.nameText?.getD "")) _
    (fun _ => rfl)]
  cases findNamed (fun q : RuntimeParameter => return some (q.nameText?.getD "")) name 0
    t.parameters with
  | error => rfl
  | ok found => cases found <;> rfl

theorem findMember_skeleton (trail : List Step) (t : TypeDefinition) (name : String)
    (rest : List String) :
    findMember trail t.skeleton name rest =
      Option.map Found.skeleton <$> findMember trail t name rest := by
  unfold findMember
  rw [TypeDefinition.body_skeleton]
  cases t.body with
  | unset | external e => rfl
  | record s =>
    simp only [TypeBody.skeleton, Structure.skeleton]
    rw [findNamed_map Field.skeleton (fun f => nameText f.name) _ fun _ => rfl]
    cases findNamed (fun f : Field => nameText f.name) name 0 s.fields with
    | error => rfl
    | ok found =>
      cases found with
      | none => rfl
      | some => cases rest <;> rfl
  | enumeration e =>
    simp only [TypeBody.skeleton, Enumeration.skeleton]
    cases rest with
    | cons => rfl
    | nil =>
      rw [findNamed_map EnumValue.skeleton (fun v => nameText v.name) _ fun _ => rfl]
      cases findNamed (fun v : EnumValue => nameText v.name) name 0 e.values with
      | error => rfl
      | ok found => cases found <;> rfl

theorem findInTypes_skeleton {trail : List Step} {list : String} {types : List TypeDefinition}
    {name : String} {rest : List String}
    (inner : ∀ trail t, findInType trail (TypeDefinition.skeleton t) rest =
      Option.map Found.skeleton <$> findInType trail t rest) :
    findInTypes trail list (types.map TypeDefinition.skeleton) name rest =
      Option.map Found.skeleton <$> findInTypes trail list types name rest := by
  rw [findInTypes, findInTypes]
  rw [findNamed_map TypeDefinition.skeleton (fun t => nameText t.name) _ fun t => by
    rw [TypeDefinition.name_skeleton]]
  cases findNamed (fun t : TypeDefinition => nameText t.name) name 0 types with
  | error => rfl
  | ok found =>
    cases found with
    | none => rfl
    | some => exact inner _ _

theorem findInType_skeleton (path : List String) (trail : List Step) (t : TypeDefinition) :
    findInType trail t.skeleton path = Option.map Found.skeleton <$> findInType trail t path := by
  induction path generalizing trail t with
  | nil =>
    rw [findInType, findInType]
    rfl
  | cons name rest ih =>
    rw [findInType, findInType, findParameter_skeleton, findMember_skeleton,
      TypeDefinition.subtypes_skeleton, findInTypes_skeleton ih]
    -- the first of the three lookups that fails or finds something decides both sides
    cases rest with
    | cons => rcases findMember trail t name _ with _ | (_ | _) <;> rfl
    | nil =>
      simp only [List.isEmpty_nil, if_true]
      rcases findParameter trail t name with _ | (_ | _)
      · rfl
      · rcases findMember trail t name [] with _ | (_ | _) <;> rfl
      · rfl

namespace Program

variable {p q : Program} {name : CanonicalName} {found : Found}

theorem findModule_skeleton (file : String) (index : Nat) (modules : List Module) :
    findModule file index (modules.map Module.skeleton) =
      (findModule file index modules).map fun found => (found.1, found.2.skeleton) := by
  induction modules generalizing index with
  | nil => rfl
  | cons head tail ih =>
    simp only [List.map_cons, findModule, ih]
    cases same : head.fileName == some file with
    | true | false => simp [Module.skeleton, same]

theorem findPath_skeleton (p : Program) (path : List String) :
    p.skeleton.findPath path = Option.map Found.skeleton <$> p.findPath path := by
  cases path with
  | nil => cases p with | mk modules => cases modules <;> rfl
  | cons file names =>
    simp only [findPath, skeleton, findModule_skeleton]
    cases findModule file 0 p.modules with
    | none => rfl
    | some =>
      cases names with
      | nil => rfl
      | cons name rest =>
        simp only [Option.map_some, Module.skeleton, TypeDefinition.skeletons_eq_map]
        exact findInTypes_skeleton (findInType_skeleton rest)

theorem find_skeleton (p : Program) (name : CanonicalName) :
    p.skeleton.find name = Found.skeleton <$> p.find name := by
  simp only [find, find?, findPath_skeleton]
  cases p.findPath (name.file :: name.path) with
  | error => rfl
  | ok found => cases found <;> rfl

theorem findParent_skeleton (p : Program) (name : CanonicalName) :
    p.skeleton.findParent name = Found.skeleton <$> p.findParent name := by
  simp only [findParent, findParentOf, findPath_skeleton]
  cases p.findPath (name.file :: name.path).dropLast with
  | error => rfl
  | ok found => cases found <;> rfl

/-- Lookups that agree up to skeletons find the same kind of object at the same address. -/
theorem found_of_map_eq {first second : Checked Found}
    (same : Found.skeleton <$> first = Found.skeleton <$> second) (run : first = .ok found) :
    ∃ other, second = .ok other ∧ other.address = found.address ∧
      other.object.skeleton = found.object.skeleton := by
  rw [run] at same
  rcases Checked.map_eq_ok.1 same.symm with ⟨other, otherRun, equal⟩
  simp only [Found.skeleton, Found.mk.injEq] at equal
  exact ⟨other, otherRun, equal⟩

theorem find_of_skeleton_eq (same : p.skeleton = q.skeleton) (run : p.find name = .ok found) :
    ∃ other, q.find name = .ok other ∧ other.address = found.address ∧
      other.object.skeleton = found.object.skeleton :=
  found_of_map_eq (by rw [← find_skeleton, ← find_skeleton, same]) run

theorem findParent_of_skeleton_eq (same : p.skeleton = q.skeleton)
    (run : p.findParent name = .ok found) :
    ∃ other, q.findParent name = .ok other ∧ other.address = found.address ∧
      other.object.skeleton = found.object.skeleton :=
  found_of_map_eq (by rw [← findParent_skeleton, ← findParent_skeleton, same]) run

end Program

end BinaryLayout.IR
