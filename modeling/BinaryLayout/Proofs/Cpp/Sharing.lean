import Mathlib
import BinaryLayout.Cpp.Expression
import BinaryLayout.Proofs.IR.Serial

/-!
# Local variables stand for what they are set to

Expressions that are rendered with a store have names of local variables in the place of what was
rendered before.  Main statement: however many expressions share a store, each of its definitions
uses only variables that are defined before it, and an expression in which the variables are
replaced by what they stand for is the one that is rendered without a store.

The two renderings run side by side.  `Mirrors` says what they have in common after a step, and
each way of putting steps together keeps it.
-/

namespace BinaryLayout.Cpp

open IR List

/-! ## What variables stand for -/

/-- The term uses variables of the first definitions only. -/
def Term.Within (n : Nat) (t : Term) : Prop :=
  ∀ index, .binding index ∈ t → index < n

/-- The term with the values of variables in their place. -/
def Term.unfold (values : List Term) (t : Term) : Term :=
  t.flatMap fun
    | .text s => [.text s]
    | .binding index => values.getD index [.binding index]

/-- What the variables stand for, when those in their definitions are replaced too. -/
def valuesOf (definitions : List Term) : List Term :=
  definitions.foldl (fun values t => values ++ [Term.unfold values t]) []

/-- Every definition uses only variables that are defined before it. -/
def Ordered (definitions : List Term) : Prop :=
  ∀ index t, definitions[index]? = some t → Term.Within index t

section Values

variable {t : Term} {values more definitions : List Term} {index : Nat}

theorem unfold_append (within : Term.Within values.length t) :
    Term.unfold (values ++ more) t = Term.unfold values t := by
  refine flatMap_congr fun piece member => ?_
  cases piece with
  | text => rfl
  | binding index =>
    simp only [getD_eq_getElem?_getD, getElem?_append_left (within index member)]

theorem valuesOf_snoc (definitions : List Term) (t : Term) :
    valuesOf (definitions ++ [t]) =
      valuesOf definitions ++ [Term.unfold (valuesOf definitions) t] := by
  rw [valuesOf, foldl_append]
  rfl

theorem length_valuesOf (definitions : List Term) :
    (valuesOf definitions).length = definitions.length := by
  induction definitions using reverseRecOn with
  | nil => rfl
  | append_singleton definitions t ih => simp [valuesOf_snoc, ih]

theorem valuesOf_append (definitions more : List Term) :
    valuesOf definitions <+: valuesOf (definitions ++ more) := by
  induction more using reverseRecOn with
  | nil => simp
  | append_singleton more t ih =>
    rw [← append_assoc, valuesOf_snoc]
    exact ih.trans (prefix_append _ _)

theorem exists_split (found : definitions[index]? = some t) :
    ∃ before after, definitions = before ++ [t] ++ after ∧ before.length = index := by
  obtain ⟨isIndex, rfl⟩ := List.getElem?_eq_some_iff.1 found
  refine ⟨definitions.take index, definitions.drop (index + 1), ?_,
    length_take_of_le (Nat.le_of_lt isIndex)⟩
  simp

theorem Ordered.snoc (ordered : Ordered definitions) (within : Term.Within definitions.length t) :
    Ordered (definitions ++ [t]) := by
  intro index t' found
  rcases Nat.lt_or_ge index definitions.length with isBefore | isAfter
  · rw [getElem?_append_left isBefore] at found
    exact ordered index t' found
  · rw [getElem?_append_right isAfter, getElem?_singleton] at found
    cases (Option.ite_none_right_eq_some.1 found).2
    exact fun other member => Nat.lt_of_lt_of_le (within other member) isAfter

/-- Later definitions do not change what a term stands for. -/
theorem unfold_valuesOf_append (within : Term.Within definitions.length t) :
    Term.unfold (valuesOf (definitions ++ more)) t = Term.unfold (valuesOf definitions) t := by
  rcases valuesOf_append definitions more with ⟨rest, same⟩
  rw [← same, unfold_append (by rwa [length_valuesOf])]

/-- A variable stands for its definition. -/
theorem unfold_binding (ordered : Ordered definitions) (found : definitions[index]? = some t) :
    Term.unfold (valuesOf definitions) [.binding index] = Term.unfold (valuesOf definitions) t := by
  have within := ordered index t found
  rcases exists_split found with ⟨before, after, rfl, rfl⟩
  rcases valuesOf_append (before ++ [t]) after with ⟨rest, same⟩
  rw [append_assoc before, unfold_valuesOf_append within, ← append_assoc, ← same, valuesOf_snoc]
  simp [Term.unfold, length_valuesOf]

end Values

theorem variableName_injective : Function.Injective variableName := by
  intro m n same
  have digits := String.append_right_inj _ |>.1 same
  have value := congrArg Text.readInteger digits
  have first := Text.readInteger_decimal (m + 1)
  have second := Text.readInteger_decimal (n + 1)
  push_cast at first second
  rw [first, second] at value
  have equal := Option.some.inj value
  omega

/-! ## Two renderings side by side -/

variable {α β : Type}

/-- With a store a step makes the same as without one, if it is unfolded by `agrees`, and fails as
it does. -/
def Mirrors (agrees : List Term → α → α → Prop) (definitions : List Term)
    (plain shared : RenderM α) : Prop :=
  match plain.run none, shared.run (some ⟨definitions⟩) with
  | .ok (a, none), .ok (a', some after) =>
    definitions <+: after.definitions ∧ Ordered after.definitions ∧ agrees after.definitions a a'
  | .error f, .error f' => f = f'
  | _, _ => False

section Mirrors

variable {agrees : List Term → α → α → Prop} {agrees' : List Term → β → β → Prop}
  {definitions : List Term} {plain shared : RenderM α}

theorem Mirrors.pure {a a' : α} (ordered : Ordered definitions)
    (related : agrees definitions a a') : Mirrors agrees definitions (pure a) (pure a') :=
  ⟨prefix_rfl, ordered, related⟩

theorem Mirrors.throw (f : Failure) : Mirrors agrees definitions (throw f) (throw f) :=
  rfl

theorem Mirrors.bind {next next' : α → RenderM β} (first : Mirrors agrees definitions plain shared)
    (rest : ∀ more a a', definitions <+: more → Ordered more → agrees more a a' →
      Mirrors agrees' more (next a) (next' a')) :
    Mirrors agrees' definitions (plain >>= next) (shared >>= next') := by
  rw [Mirrors, StateT.run_bind, StateT.run_bind]
  unfold Mirrors at first
  split at first
  · rename_i a a' after isPlain isShared
    rcases first with ⟨grows, ordered, related⟩
    have both := rest _ a a' grows ordered related
    rw [isPlain, isShared]
    unfold Mirrors at both
    simp only [Bind.bind, Except.bind]
    split at both
    · rename_i b b' last isPlain' isShared'
      rw [isPlain', isShared']
      exact ⟨grows.trans both.1, both.2⟩
    · rename_i isPlain' isShared'
      rw [isPlain', isShared']
      exact both
    · exact both.elim
  · rename_i isPlain isShared
    rw [isPlain, isShared]
    exact first
  · exact first.elim

theorem Mirrors.lift_bind {step : Checked α} {next next' : α → RenderM β}
    (rest : ∀ a, Mirrors agrees' definitions (next a) (next' a)) :
    Mirrors agrees' definitions (liftM step >>= next) (liftM step >>= next') := by
  cases step with
  | error => rfl
  | ok a => exact rest a

/-- A term that stands for another one. -/
def Stands (definitions : List Term) (t t' : Term) : Prop :=
  Term.Within definitions.length t' ∧ Term.unfold (valuesOf definitions) t' = t

theorem Stands.grow {more : List Term} {t t' : Term} (stands : Stands definitions t t')
    (grows : definitions <+: more) : Stands more t t' := by
  rcases grows with ⟨rest, rfl⟩
  rcases stands with ⟨within, unfolds⟩
  refine ⟨fun index member => ?_, (unfold_valuesOf_append within).trans unfolds⟩
  exact Nat.lt_of_lt_of_le (within index member) (by simp)

theorem Stands.append {t t' u u' : Term} (first : Stands definitions t t')
    (second : Stands definitions u u') : Stands definitions (t ++ u) (t' ++ u') := by
  refine ⟨fun index member => ?_, ?_⟩
  · exact (mem_append.1 member).elim (first.1 index) (second.1 index)
  · rw [Term.unfold, flatMap_append]
    exact congrArg₂ _ first.2 second.2

theorem Stands.text (definitions : List Term) (s : String) :
    Stands definitions [.text s] [.text s] :=
  ⟨fun index member => by simp at member, rfl⟩

theorem mirrors_share {t t' : Term} (ordered : Ordered definitions)
    (stands : Stands definitions t t') : Mirrors Stands definitions (share t) (share t') := by
  have known {definitions : List Term} {index : Nat} (ordered : Ordered definitions)
      (found : definitions[index]? = some t')
      (unfolds : Term.unfold (valuesOf definitions) t' = t) : Stands definitions t [.binding index] := by
    refine ⟨fun other member => ?_, (unfold_binding ordered found).trans unfolds⟩
    obtain rfl : other = index := by simpa using member
    exact (List.getElem?_eq_some_iff.1 found).1
  change definitions <+: (Store.add ⟨definitions⟩ t').1.definitions ∧
    Ordered (Store.add ⟨definitions⟩ t').1.definitions ∧
      Stands (Store.add ⟨definitions⟩ t').1.definitions t (Store.add ⟨definitions⟩ t').2
  cases found : definitions.idxOf? t' with
  | some index =>
    obtain ⟨isIndex, same, _⟩ := findIdx?_eq_some_iff_getElem.1 found
    have isThere := List.getElem?_eq_some_iff.2 ⟨isIndex, eq_of_beq same⟩
    simp only [Store.add, found]
    exact ⟨prefix_rfl, ordered, known ordered isThere stands.2⟩
  | none =>
    have grows := prefix_append definitions [t']
    have ordered' := ordered.snoc stands.1
    simp only [Store.add, found]
    exact ⟨grows, ordered', known ordered' (by simp) (stands.grow grows).2⟩

end Mirrors

/-! ## Expressions -/

section Expressions

variable {definitions : List Term} {p : Program} {reader : FieldReader}

/-- The same expression, with local variables and without. -/
def SameRendered (definitions : List Term) (r r' : Rendered) : Prop :=
  Stands definitions r.term r'.term ∧ r.isConstant = r'.isConstant

theorem mirrors_knownOr {t : Option ExpressionType} {m : RenderM Rendered}
    (ordered : Ordered definitions) (mirrors : Mirrors SameRendered definitions m m) :
    Mirrors SameRendered definitions (knownOr p t m) (knownOr p t m) := by
  refine .lift_bind fun known => ?_
  cases known with
  | none => exact mirrors
  | some text => exact .pure ordered ⟨.text _ text, rfl⟩

theorem mirrors_varying {m : RenderM Term} (mirrors : Mirrors Stands definitions m m) :
    Mirrors SameRendered definitions (varying m) (varying m) :=
  mirrors.bind fun _ _ _ _ ordered stands =>
    (mirrors_share ordered stands).bind fun _ _ _ _ ordered stands => .pure ordered ⟨stands, rfl⟩

theorem mirrors_read (r : FieldReference) (t : Option ExpressionType)
    (ordered : Ordered definitions) :
    Mirrors Stands definitions (reader.read p r t) (reader.read p r t) := by
  cases reader with
  | inside | throughView =>
    exact .lift_bind fun _ => (mirrors_share ordered (.text ..)).bind fun _ _ _ _ ordered stands =>
      .lift_bind fun _ => .pure ordered
        (((((Stands.text ..).append stands).append (.text ..)).append stands).append (.text ..))
  | validating f =>
    unfold FieldReader.read
    simp only
    split
    · exact .lift_bind fun _ => .lift_bind fun _ => .lift_bind fun _ => .pure ordered (.text ..)
    · exact .throw _

theorem mirrors_existence (e : Expression) (ordered : Ordered definitions) :
    Mirrors Stands definitions (liftM (reader.existence e)) (liftM (reader.existence e)) := by
  have written : ∀ t, reader.existence e = .ok t → ∃ s, t = [.text s] := by
    intro t run
    cases reader with
    | validating => cases run
    | inside | throughView =>
      rcases Checked.bind_eq_ok.1 run with ⟨_, _, run⟩
      rcases Checked.bind_eq_ok.1 run with ⟨_, _, run⟩
      cases run
      exact ⟨_, rfl⟩
  cases run : reader.existence e with
  | error => rfl
  | ok t =>
    rcases written t run with ⟨s, rfl⟩
    exact ⟨prefix_rfl, ordered, .text ..⟩

theorem stands_commaSeparated {list list' : List Term}
    (each : Forall₂ (Stands definitions) list list') :
    Stands definitions (commaSeparated list) (commaSeparated list') := by
  induction each with
  | nil => exact ⟨fun index member => (not_mem_nil member).elim, rfl⟩
  | @cons t t' rest rest' first others ih =>
    cases others with
    | nil => exact first
    | cons => exact (first.append (.text ..)).append ih

theorem mirrors_cons {m : RenderM Rendered} {ms : RenderM (List Rendered)}
    (first : Mirrors SameRendered definitions m m)
    (others : ∀ {definitions}, Ordered definitions →
      Mirrors (fun definitions => Forall₂ (SameRendered definitions)) definitions ms ms) :
    let all := do return (← m) :: (← ms)
    Mirrors (fun definitions => Forall₂ (SameRendered definitions)) definitions all all :=
  first.bind fun _ _ _ _ ordered first => (others ordered).bind
    fun _ _ _ grows ordered others => .pure ordered (.cons ⟨first.1.grow grows, first.2⟩ others)

mutual

theorem mirrors_render (e : Expression) {definitions : List Term} (ordered : Ordered definitions) :
    Mirrors SameRendered definitions (render p reader e) (render p reader e) := by
  cases e with
  | function operator args word location note =>
    refine mirrors_knownOr ordered ?_
    split <;> dsimp only <;> split
    · exact .throw _
    · exact mirrors_varying (.lift_bind fun arg => mirrors_existence arg ordered)
    · exact .throw _
    · refine mirrors_varying ((mirrors_renderAll args ordered).bind
        fun _ _ _ _ ordered each => .lift_bind fun _ => .lift_bind fun head => .pure ordered ?_)
      refine ((Stands.text ..).append (stands_commaSeparated ?_)).append (.text ..)
      exact forall₂_map_left_iff.2 (forall₂_map_right_iff.2 (each.imp fun _ _ same => same.1))
  | fieldReference r note =>
    exact mirrors_knownOr ordered (mirrors_varying (mirrors_read r note.type ordered))
  | builtinReference r note =>
    refine mirrors_knownOr ordered (.lift_bind fun _ => .lift_bind fun name => ?_)
    split
    · exact .pure ordered ⟨.text .., rfl⟩
    · exact .throw _
  | unset | constant | constantReference | booleanConstant =>
    exact mirrors_knownOr ordered (.throw _)

theorem mirrors_renderAll (list : List Expression) {definitions : List Term}
    (ordered : Ordered definitions) :
    Mirrors (fun definitions => Forall₂ (SameRendered definitions)) definitions
      (renderAll p reader list) (renderAll p reader list) := by
  cases list with
  | nil => exact .pure ordered .nil
  | cons e rest => exact mirrors_cons (mirrors_render e ordered) (mirrors_renderAll rest)

end

/-- Expressions that are rendered one after the other, with one store. -/
def renderEach (p : Program) (requests : List (FieldReader × Expression)) :
    RenderM (List Rendered) :=
  requests.mapM fun request => render p request.1 request.2

theorem mirrors_renderEach (requests : List (FieldReader × Expression)) {definitions : List Term}
    (ordered : Ordered definitions) :
    Mirrors (fun definitions => Forall₂ (SameRendered definitions)) definitions
      (renderEach p requests) (renderEach p requests) := by
  induction requests generalizing definitions with
  | nil => exact .pure ordered .nil
  | cons request rest ih =>
    rw [renderEach, mapM_cons]
    exact mirrors_cons (mirrors_render request.2 ordered) ih

/-- An expression in which variables are replaced by what they stand for. -/
def Rendered.unfold (values : List Term) (r : Rendered) : Rendered :=
  { r with term := r.term.unfold values }

theorem map_unfold {list list' : List Rendered}
    (each : Forall₂ (SameRendered definitions) list list') :
    list'.map (Rendered.unfold (valuesOf definitions)) = list := by
  induction each with
  | nil => rfl
  | cons same _ ih =>
    rw [map_cons, ih, Rendered.unfold, same.1.2, ← same.2]

theorem nodup_variableNames (definitions : List Term) :
    (definitions.zipIdx.map fun d => variableName d.2).Nodup := by
  rw [← Function.comp_def, ← map_map, zipIdx_map_snd]
  exact Nodup.map variableName_injective nodup_range'

/-- Expressions that share a store are rendered exactly if they are without a store. -/
theorem unfold_shared (p : Program) (requests : List (FieldReader × Expression))
    {definitions : List Term} (ordered : Ordered definitions) (plain : List Rendered) :
    (renderEach p requests).inline = .ok plain ↔
      ∃ shared store, (renderEach p requests).run (some ⟨definitions⟩) = .ok (shared, some store) ∧
        definitions <+: store.definitions ∧ Ordered store.definitions ∧
        (store.definitions.zipIdx.map fun d => variableName d.2).Nodup ∧
        shared.map (Rendered.unfold (valuesOf store.definitions)) = plain := by
  have both := mirrors_renderEach (p := p) requests ordered
  rw [RenderM.inline, Checked.bind_eq_ok]
  unfold Mirrors at both
  split at both
  · rename_i list list' store isPlain isShared
    rcases both with ⟨grows, ordered', each⟩
    rw [isPlain, isShared]
    constructor
    · rintro ⟨_, ⟨⟩, ⟨⟩⟩
      exact ⟨_, _, rfl, grows, ordered', nodup_variableNames _, map_unfold each⟩
    · rintro ⟨_, _, ⟨⟩, _, _, _, rfl⟩
      rw [map_unfold each]
      exact ⟨_, rfl, rfl⟩
  · rename_i isPlain isShared
    rw [isPlain, isShared]
    simp
  · exact both.elim

/-- Whether a field is there, asked twice. -/
def presentTwice : Expression :=
  let note : Annotation := { type := some (.boolean {}) }
  let x : Reference := { canonicalName := some ⟨"m", ["Foo", "x"]⟩ }
  let present : Expression :=
    .function (some .presence) [.fieldReference { path := [x] } note] none none note
  .function (some .and) [present, present] none none note

theorem unfold_shared_presentTwice :
    Ordered [] ∧ ∃ shared store,
      (renderEach {} [(.inside, presentTwice)]).run (some ⟨[]⟩) = .ok (shared, some store) ∧
        [] <+: store.definitions ∧ Ordered store.definitions ∧
        (store.definitions.zipIdx.map fun d => variableName d.2).Nodup ∧
        shared.map (Rendered.unfold (valuesOf store.definitions)) =
          [⟨[.text "::emboss::support::And</**/bool, bool, bool, bool>(", .text "has_x()",
            .text ", ", .text "has_x()", .text ")"], false⟩] := by
  have ordered : Ordered [] := fun _ _ found => by simp at found
  exact ⟨ordered, (unfold_shared {} _ ordered _).1 (by cbv)⟩

end Expressions

end BinaryLayout.Cpp
