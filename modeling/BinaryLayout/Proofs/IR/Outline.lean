import BinaryLayout.Proofs.IR.Part

/-!
# The outline of a program

The outline of a program has the names of its files and of the objects in them, and the imports,
and nothing else.

Main statement: a part that is put in the place of another with the same outline leaves the outline
of the whole as it is.
-/

namespace BinaryLayout.IR

open List

def Field.outline (f : Field) : Field where
  name := f.name

def EnumValue.outline (v : EnumValue) : EnumValue where
  name := v.name

def RuntimeParameter.outline (q : RuntimeParameter) : RuntimeParameter where
  name := q.name

def Structure.outline (b : Structure) : Structure where
  fields := b.fields.map Field.outline

def Enumeration.outline (e : Enumeration) : Enumeration where
  values := e.values.map EnumValue.outline

def TypeBody.outline : TypeBody → TypeBody
  | .enumeration e => .enumeration e.outline
  | .record b => .record b.outline
  | _ => .unset

mutual

def TypeDefinition.outline : TypeDefinition → TypeDefinition
  | ⟨body, name, _, _, subtypes, _, parameters, _⟩ =>
    { body := body.outline, name := name, subtypes := outlines subtypes
      parameters := parameters.map RuntimeParameter.outline }

def TypeDefinition.outlines : List TypeDefinition → List TypeDefinition
  | [] => []
  | t :: rest => t.outline :: outlines rest

end

def Module.outline (m : Module) : Module where
  imports := m.imports
  types := TypeDefinition.outlines m.types
  fileName := m.fileName

def Program.outline (p : Program) : Program where
  modules := p.modules.map Module.outline

theorem TypeDefinition.outlines_eq_map (types : List TypeDefinition) :
    outlines types = types.map outline := by
  induction types with
  | nil => rfl
  | cons _ _ ih => rw [outlines, ih, map_cons]

def Node.outline : Node → Node
  | .program p => .program p.outline
  | .moduleFile m => .moduleFile m.outline
  | .typeDefinition t => .typeDefinition t.outline
  | .structureBody b => .structureBody b.outline
  | .enumBody e => .enumBody e.outline
  | .field f => .field f.outline
  | .enumValue v => .enumValue v.outline
  | .parameter q => .parameter q.outline
  | .importLine i => .importLine i
  | .property _ => .property {}
  | .nameDefinition n => .nameDefinition n
  | .canonicalName n => .canonicalName n
  | _ => .compoundType

namespace Node

theorem outline_withChild {c' : Node} (n : Node) : ∀ child ∈ n.children,
    child.2.kind.isLeaf = false → c'.kind = child.2.kind → c'.outline = child.2.outline →
    (n.withChild child.1 c').outline = n.outline := by
  cases n with
  | typeDefinition t =>
    rcases t with ⟨body, _, _, _, _, _, _, _⟩
    simp only [children, forall_mem_append, and_assoc]
    refine ⟨?_, forall_childIn fun _ there _ same alike => ?_,
      forall_childrenIn fun i _ there _ same alike => ?_,
      forall_childrenIn fun i _ there inner same alike => ?_,
      forall_childrenIn fun i _ there _ same alike => ?_,
      forall_childrenIn fun i _ there _ same alike => ?_⟩
    · cases body <;> first
        | exact forall_mem_nil _
        | refine forall_mem_singleton.2 fun inner same alike => ?_
      all_goals
        cases c' <;> first | (cases same; done) | skip
        simp_all [outline, withChild, definitionWith, TypeDefinition.outline, TypeBody.outline]
    all_goals first
      | cases inner
      | cases c' <;> first | (cases same; done) | skip
    all_goals
      injection alike with alike
      first
      | rfl
      | (simp [outline, withChild, definitionWith, putIn, nameDefinition?, there, alike]; done)
      | simp [outline, withChild, definitionWith, putAt, typeDefinition?, parameter?,
          TypeDefinition.outline, TypeDefinition.outlines_eq_map, map_set_of_eq there alike]
  | nameDefinition | field | structureBody | enumValue | enumBody | importLine | parameter
  | moduleFile | program =>
    simp only [children, forall_mem_append]
    repeat' apply And.intro
    all_goals first
      | refine forall_childIn fun _ there inner same alike => ?_
      | refine forall_childrenIn fun i _ there inner same alike => ?_
    all_goals first
      | (cases inner; done)
      | cases c' <;> first | (cases same; done) | skip
    all_goals first
      | rfl
      | injection alike with alike
    all_goals first
      | (simp [outline, withChild, putAt, import?, Module.outline, alike,
          set_of_getElem? there]; done)
      | (simp [outline, withChild, fieldWith, putIn, nameDefinition?, Field.outline,
          EnumValue.outline, RuntimeParameter.outline, there, alike]; done)
      | simp [outline, withChild, putAt, field?, enumValue?, typeDefinition?, module?,
          Structure.outline, Enumeration.outline, Module.outline, Program.outline,
          TypeDefinition.outlines_eq_map, map_set_of_eq there alike]
  | _ =>
    intro child member inner same alike
    simp only [withChild]
    repeat' split
    all_goals rfl

end Node

end BinaryLayout.IR
