import BinaryLayout.Proofs.IR.Walk

/-!
# The objects of a program

Types, fields, values and parameters are the objects that have names of their own in a module.
`TypeDefinition.Holds` and `Program.Holds` say where they stand.

Main statement: an address that leads to such an object, by whatever way, goes through a module
and through types in it, and on to what the last of them consists of.
-/

namespace BinaryLayout.IR

open List

/-- The text of a name, if it is there. -/
def spelling? (n : Option NameDefinition) : Option String :=
  (n.bind (·.name)).bind (·.text)

def spelling (n : Option NameDefinition) : String :=
  (spelling? n).getD ""

/-- The kinds of nodes that have names of their own in a module. -/
def Kind.declared : List Kind :=
  [.typeDefinition, .field, .enumValue, .runtimeParameter]

def Object.name : Object → Option NameDefinition
  | .moduleFile _ => none
  | .definition t => t.name
  | .field f => f.name
  | .enumValue v => v.name
  | .parameter q => q.name

/-- The absolute name of an object in a module. -/
def Object.canonicalName? (o : Object) : Option CanonicalName :=
  o.name.bind (·.canonicalName)

def TypeBody.names : TypeBody → List (Option NameDefinition)
  | .record b => b.fields.map (·.name)
  | .enumeration e => e.values.map (·.name)
  | _ => []

/-- The names of everything directly in a type. -/
def TypeDefinition.memberNames (t : TypeDefinition) : List (Option NameDefinition) :=
  t.subtypes.map (·.name) ++ t.body.names ++ t.parameters.map (·.name)

def hasText (n : Option NameDefinition) : Bool :=
  (spelling? n).isSome

mutual

/-- Whether everything in a type has a name. -/
def TypeDefinition.isNamed : TypeDefinition → Bool
  | ⟨body, _, _, _, subtypes, _, parameters, _⟩ =>
    body.names.all hasText && parameters.all (fun q => hasText q.name) && areNamed subtypes

/-- Whether several types and everything in them have names. -/
def TypeDefinition.areNamed : List TypeDefinition → Bool
  | [] => true
  | t :: rest => hasText t.name && t.isNamed && areNamed rest

end

/-- Whether all objects in the modules of a program have names. -/
def Program.isNamed (p : Program) : Bool :=
  p.modules.all fun m => TypeDefinition.areNamed m.types

theorem TypeDefinition.areNamed_iff {types : List TypeDefinition} :
    areNamed types = true ↔ ∀ t ∈ types, hasText t.name = true ∧ t.isNamed = true := by
  induction types with
  | nil => simp [areNamed]
  | cons t rest ih =>
    simp only [areNamed, Bool.and_eq_true, ih, forall_mem_cons]

theorem TypeDefinition.isNamed_iff {t : TypeDefinition} :
    t.isNamed = true ↔ (∀ n ∈ t.body.names, hasText n = true) ∧
      (∀ q ∈ t.parameters, hasText q.name = true) ∧ areNamed t.subtypes = true := by
  cases t
  simp only [isNamed, Bool.and_eq_true, all_eq_true, and_assoc]

theorem TypeDefinition.hasText_of_mem {t : TypeDefinition} (isNamed : t.isNamed = true)
    {n : Option NameDefinition} (member : n ∈ t.memberNames) : hasText n = true := by
  rcases isNamed_iff.1 isNamed with ⟨body, parameters, subtypes⟩
  rw [areNamed_iff] at subtypes
  simp only [memberNames, mem_append, mem_map] at member
  rcases member with (⟨inner, isSubtype, rfl⟩ | inBody) | ⟨q, isParameter, rfl⟩
  · exact (subtypes inner isSubtype).1
  · exact body n inBody
  · exact parameters q isParameter

/-- A type has an object in it at an address. -/
inductive TypeDefinition.Holds : TypeDefinition → Address → Object → Prop
  | self (t : TypeDefinition) : Holds t [] (.definition t)
  | field {t : TypeDefinition} {b : Structure} {i : Nat} {f : Field}
      (isRecord : t.body = .record b) (there : b.fields[i]? = some f) :
      Holds t [⟨"structure", 0⟩, ⟨"field", i⟩] (.field f)
  | value {t : TypeDefinition} {e : Enumeration} {i : Nat} {v : EnumValue}
      (isEnumeration : t.body = .enumeration e) (there : e.values[i]? = some v) :
      Holds t [⟨"enumeration", 0⟩, ⟨"value", i⟩] (.enumValue v)
  | parameter {t : TypeDefinition} {i : Nat} {q : RuntimeParameter}
      (there : t.parameters[i]? = some q) :
      Holds t [⟨"runtime_parameter", i⟩] (.parameter q)
  | subtype {t inner : TypeDefinition} {i : Nat} {a : Address} {o : Object}
      (there : t.subtypes[i]? = some inner) (inside : Holds inner a o) :
      Holds t (⟨"subtype", i⟩ :: a) o

/-- A program has an object in one of its modules at an address. -/
inductive Program.Holds (p : Program) : Address → Object → Prop
  | intro {i j : Nat} {m : Module} {t : TypeDefinition} {a : Address} {o : Object}
      (isModule : p.modules[i]? = some m) (isType : m.types[j]? = some t)
      (inside : t.Holds a o) : Holds p (⟨"module", i⟩ :: ⟨"type", j⟩ :: a) o

namespace Node

variable {a : Address} {n m : Node}

/-- The kinds of nodes in which no object of a module is, but for themselves. -/
def closed : List Kind :=
  [.field, .enumValue, .runtimeParameter, .property, .nameDefinition, .documentation, .external,
    .string, .importLine]

theorem eq_of_at?_closed (there : n.at? a = some m) (isDeclared : m.kind ∈ Kind.declared)
    (isClosed : n.kind ∈ closed) : a = [] ∧ m = n := by
  cases a with
  | nil =>
    cases there
    exact ⟨rfl, rfl⟩
  | cons =>
    rcases at?_cons_eq_some.1 there with ⟨_, isChild, below⟩
    have isBelow := kind_of_mem_children n _ (mem_children_of_child? isChild)
    have nothing : (closed.all fun k => k.below.all fun c =>
        Kind.declared.all fun target => !c.canHold target) = true := by
      decide +kernel
    have not := all_eq_true.1 (all_eq_true.1 (all_eq_true.1 nothing _ isClosed) _
      isBelow) _ isDeclared
    rw [canHold_of_at? below] at not
    cases not

end Node

theorem TypeDefinition.holds_of_at? {a : Address} {t : TypeDefinition} {o : Object}
    (there : (Node.typeDefinition t).at? a = some o.node)
    (isDeclared : o.node.kind ∈ Kind.declared) : t.Holds a o := by
  -- a part in which there is no other object is the object itself
  have itself {rest : Address} {n : Node} (isClosed : n.kind ∈ Node.closed)
      (below : n.at? rest = some o.node) : rest = [] ∧ o.node = n :=
    Node.eq_of_at?_closed below isDeclared isClosed
  induction a generalizing t with
  | nil =>
    cases o <;> cases there
    exact .self t
  | cons s rest ih =>
    rcases Node.at?_cons_eq_some.1 there with ⟨c, isChild, below⟩
    have member := Node.mem_children_of_child? isChild
    simp only [Node.children, mem_append, mem_childIn_iff, mem_childrenIn_iff, or_assoc] at member
    rcases member with inBody | ⟨_, _, _, rfl⟩ | ⟨_, _, _, _, rfl⟩ | ⟨_, _, _, _, rfl⟩ |
      ⟨i, inner, rfl, isSubtype, rfl⟩ | ⟨i, q, rfl, isParameter, rfl⟩
    · cases isBody : t.body with
      | unset =>
        rw [isBody] at inBody
        cases inBody
      | external =>
        rw [isBody] at inBody
        cases mem_singleton.1 inBody
        cases o <;> cases (itself (by simp [Node.kind, Node.closed]) below).2
      | record | enumeration =>
        rw [isBody] at inBody
        cases mem_singleton.1 inBody
        cases rest with
        | nil => cases o <;> cases below
        | cons =>
          rcases Node.at?_cons_eq_some.1 below with ⟨_, isChild, below⟩
          rcases mem_childrenIn_iff.1 (Node.mem_children_of_child? isChild) with
            ⟨i, member, rfl, isMember, rfl⟩
          rcases itself (by simp [Node.kind, Node.closed]) below with ⟨rfl, same⟩
          cases o <;> cases same
          first
            | exact .field isBody isMember
            | exact .value isBody isMember
    iterate 3 cases o <;> cases (itself (by simp [Node.kind, Node.closed]) below).2
    · exact .subtype isSubtype (ih below)
    · rcases itself (by simp [Node.kind, Node.closed]) below with ⟨rfl, same⟩
      cases o <;> cases same
      exact .parameter isParameter

/-- An object of a module stands in a type of the module. -/
theorem Program.holds_of_at? {p : Program} {a : Address} {o : Object}
    (there : p.at? a = some o.node) (isDeclared : o.node.kind ∈ Kind.declared) : p.Holds a o := by
  cases a with
  | nil => cases o <;> cases there
  | cons s rest =>
    rcases Node.at?_cons_eq_some.1 there with ⟨_, isChild, below⟩
    rcases mem_childrenIn_iff.1 (Node.mem_children_of_child? isChild) with
      ⟨i, m, rfl, isModule, rfl⟩
    cases rest with
    | nil =>
      cases o <;> cases below
      exact absurd isDeclared (by simp [Kind.declared, Object.node, Node.kind])
    | cons =>
      rcases Node.at?_cons_eq_some.1 below with ⟨_, isChild, below⟩
      have member := Node.mem_children_of_child? isChild
      simp only [Node.children, mem_append, mem_childrenIn_iff, or_assoc] at member
      rcases member with ⟨_, _, _, _, rfl⟩ | ⟨j, t, rfl, isType, rfl⟩ | ⟨_, _, _, _, rfl⟩ |
        ⟨_, _, _, _, rfl⟩
      · cases o <;> cases (Node.eq_of_at?_closed below isDeclared
          (by simp [Node.kind, Node.closed])).2
      · exact .intro isModule isType (TypeDefinition.holds_of_at? below isDeclared)
      iterate 2 cases o <;> cases (Node.eq_of_at?_closed below isDeclared
        (by simp [Node.kind, Node.closed])).2

end BinaryLayout.IR
