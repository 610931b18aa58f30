import BinaryLayout.Proofs.Bounds.Program
import BinaryLayout.Proofs.Bounds.Soundness
import BinaryLayout.Proofs.Constraint.Range

/-!
# Accepted programs

A static reference has to be to something constant.  Main statement: in an accepted program every
one of them is, however deep in an expression it stands.  A structure with one physical field is
accepted if no language reserves a name in it.
-/

namespace BinaryLayout.Constraint

open IR Checked List

/-! ## Static references -/

section Static

variable {p q : Program}

theorem isConstant_of_silent {file : String} {r : Reference} {note : Annotation}
    (silent : Silent (checkStatic p file (.constantReference r note))) :
    ∃ t, note.type = some t ∧ t.isConstant = true := by
  rcases run_lift_bind_eq_ok.1 silent with ⟨t, hasType, run⟩
  refine ⟨t, Failure.entry_eq_ok.1 hasType, ?_⟩
  by_contra varies
  rw [if_pos (by simpa using varies)] at run
  cases isName : r.canonicalName with
  | none =>
    rw [isName] at run
    exact run_throw_ne_ok run
  | some =>
    rw [isName] at run
    obtain ⟨_, _, _, run⟩ := run_bind_eq_ok.1 run
    obtain ⟨_, _, _, run⟩ := run_bind_eq_ok.1 run
    simp [run_reportGroup_eq_ok] at run

/-- In an accepted program a static reference is to something constant. -/
theorem isConstant_of_check {a : Address} {e : Expression} {r : Reference} {note : Annotation}
    (run : check p = .ok (q, [])) (there : p.expressionAt? a = some e)
    (inside : Inside e (.constantReference r note)) :
    ∃ t, note.type = some t ∧ t.isConstant = true := by
  rcases inside.exists_at? with ⟨b, below⟩
  have inProgram :
      (Node.program p).at? (a ++ b) = some (.expression (.constantReference r note)) := by
    rw [Node.at?_append, Node.at?_of_inner? (Node.top?_eq_some.1 there), Option.bind_some, below]
  rcases Node.exists_visitAt inProgram [] [] with ⟨v, visited, isNode⟩
  have isVisit := Program.mem_visits_of_visitAt visited fun _ _ => not_mem_nil
  rw [isNode] at isVisit
  have isPart : (v, .constantReference r note) ∈ p.partsOf Node.expression? [.expression] :=
    mem_filterMap.2 ⟨v, isVisit, by rw [isNode]; rfl⟩
  exact isConstant_of_silent ((silent_of_check run).2.1 _ isPart)

end Static

/-! ## Names that are not reserved -/

section Names

open BinaryLayout.Language

theorem getElem?_insertAll (language : String) (list : List String)
    (words : Std.HashMap String String) (w : String) :
    (list.foldl (fun words w => words.insertIfNew w language) words)[w]? =
      words[w]?.or (if w ∈ list then some language else none) := by
  induction list generalizing words with
  | nil => simp
  | cons first rest ih =>
    rw [foldl_cons, ih, Std.HashMap.getElem?_insertIfNew]
    by_cases same : first = w
    · subst same
      by_cases known : first ∈ words <;> simp [known]
    · have other : w ≠ first := Ne.symm same
      simp [same, other]

theorem getElem?_insertLists (lists : List (String × List String))
    (words : Std.HashMap String String) (w : String) :
    (lists.foldl (fun words (language, list) =>
        list.foldl (fun words w => words.insertIfNew w language) words) words)[w]? =
      words[w]?.or ((lists.find? (·.2.contains w)).map (·.1)) := by
  induction lists generalizing words with
  | nil => simp
  | cons first rest ih =>
    rw [foldl_cons, ih, getElem?_insertAll, Option.or_assoc, find?_cons]
    by_cases member : w ∈ first.2 <;> simp [member]

theorem reservedIn_eq (w : String) :
    reservedIn w = (reservedWordLists.find? (·.2.contains w)).map (·.1) := by
  rw [reservedIn, reservedWords, getElem?_insertLists]
  simp

/-- A name that no language reserves. -/
def IsFree (n : Option NameDefinition) : Prop :=
  ∃ d w, n = some d ∧ d.name = some w ∧ w.text.bind reservedIn = none

theorem areFree_of_all {names : List (Option NameDefinition)}
    (free : (names.all fun n => ((n.bind (·.name)).bind (·.text)).any
      fun w => (reservedWordLists.find? (·.2.contains w)).isNone) = true) :
    ∀ n ∈ names, IsFree n := by
  intro n member
  rcases (Option.any_eq_true _ _).1 (all_eq_true.1 free n member) with ⟨w, inName, isFree⟩
  rcases Option.bind_eq_some_iff.1 inName with ⟨word, isWord, isText⟩
  rcases Option.bind_eq_some_iff.1 isWord with ⟨d, rfl, isName⟩
  refine ⟨d, word, rfl, isName, ?_⟩
  rw [isText, Option.bind_some, reservedIn_eq, Option.isNone_iff_eq_none.1 isFree]
  rfl

theorem checkName_eq_pure {file role : String} {n : Option NameDefinition} (free : IsFree n) :
    checkName file n role = pure () := by
  rcases free with ⟨d, w, rfl, isNamed, free⟩
  funext before
  refine run_lift_bind_eq_ok.2 ⟨d, rfl, run_lift_bind_eq_ok.2 ⟨w, ?_, ?_⟩⟩
  · exact Failure.require_eq_ok.2 isNamed
  · rw [free]
    rfl

theorem forIn_checkName {α : Type} {parts : List (Visit × α)} {role : String}
    (nameOf : α → Option NameDefinition) (free : ∀ n ∈ parts.map (nameOf ·.2), IsFree n) :
    (forIn parts PUnit.unit fun (part : Visit × α) _ => do
      checkName part.1.file (nameOf part.2) role
      pure (ForInStep.yield PUnit.unit)) = (pure PUnit.unit : ReportM PUnit) := by
  induction parts with
  | nil => rfl
  | cons part rest ih =>
    rcases forall_mem_cons.1 free with ⟨first, others⟩
    rw [forIn_cons, checkName_eq_pure first]
    exact ih others

end Names

/-! ## An accepted structure -/

namespace Sample

open Bounds
open Bounds.Sample (member memberName number counter ofByte ofSum)

/-- The module of the types that are built in. -/
def builtIn : Module where
  fileName := some ""
  types := [{
    name := some { name := some { text := some "UInt" } }
    unit := some .bit
    body := .external {} }]

def computedField (name : String) (e condition : Expression) : Field where
  name := some { name := some { text := some name } }
  readTransform := some e
  existenceCondition := some condition

/-- The difference of a number and a virtual field. -/
def difference (left right own : ExpressionType) : Expression :=
  .function (some .subtraction) [number 300 left, member "shifted" right] none none
    { type := some own }

/-- A structure with a byte and two numbers that are computed. -/
def frame (byte : Field) (sum difference condition : Expression) : Program where
  modules := [{
    fileName := some "sample"
    types := [{
      name := some { name := some { text := some "Frame" } }
      unit := some .byte
      body := .record { fields := [byte, computedField "shifted" sum condition,
        computedField "mirrored" difference condition] } }] }, builtIn]

/-- The structure with ten more than its byte and what is left of 300, before bounds are
computed. -/
def started : Program :=
  frame counter (Bounds.Sample.sum (.integer {}) (.integer {}) (.integer {}))
    (difference (.integer {}) (.integer {}) (.integer {})) Bounds.Sample.always

def knownNumber (n : Int) : Expression :=
  number n (.integer (singleton (some (.int n))))

def always : Expression :=
  .booleanConstant { value := some true } { type := some (.boolean ⟨some true⟩) }

/-- What is known of a number that is 300 less one that is ten above a byte. -/
def ofDifference : ExpressionType :=
  .integer ⟨some (.int 1), some (.int 0), some (.int 35), some (.int 290)⟩

def tenMore : Expression :=
  Bounds.Sample.sum ofByte (.integer (singleton (some (.int 10)))) ofSum

def remaining : Expression :=
  difference (.integer (singleton (some (.int 300)))) ofSum ofDifference

def byteField : Field :=
  { counter with
    placement := some { start := some (knownNumber 0), size := some (knownNumber 1) }
    existenceCondition := some always }

/-- The structure with bounds. -/
def finished : Program :=
  frame byteField tenMore remaining always

/-- One, as a difference of which the first number fits in no type. -/
def one (large small own : ExpressionType) : Expression :=
  .function (some .subtraction)
    [number 18446744073709551616 large, number 18446744073709551615 small] none none
    { type := some own }

def knownOne : Expression :=
  one (.integer (singleton (some (.int 18446744073709551616))))
    (.integer (singleton (some (.int 18446744073709551615))))
    (.integer (singleton (some (.int 1))))

def oneMore (left : ExpressionType) (one : Expression) (own : ExpressionType) : Expression :=
  .function (some .addition) [member "counter" left, one] none none { type := some own }

/-- The structure with one more and ten more than its byte, before bounds are computed. -/
def startedLarge : Program :=
  frame counter
    (oneMore (.integer {}) (one (.integer {}) (.integer {}) (.integer {})) (.integer {}))
    (Bounds.Sample.sum (.integer {}) (.integer {}) (.integer {})) Bounds.Sample.always

def finishedLarge : Program :=
  frame byteField (oneMore ofByte knownOne
    (.integer ⟨some (.int 1), some (.int 0), some (.int 1), some (.int 256)⟩)) tenMore always

theorem expressions_started :
    (Node.program started).contents.filterMap Node.expression? =
      [number 0 (.integer {}), number 1 (.integer {}), Bounds.Sample.always,
        Bounds.Sample.sum (.integer {}) (.integer {}) (.integer {}), Bounds.Sample.always,
        difference (.integer {}) (.integer {}) (.integer {}), Bounds.Sample.always] := by
  cbv

theorem prepared_started : Prepared started := by
  have counts : (⟨some (memberName "counter"), [], none, none⟩ : Reference).Names started
      (memberName "counter") (.field counter) :=
    ⟨rfl, [⟨"module", 0⟩, ⟨"type", 0⟩, ⟨"structure", 0⟩, ⟨"field", 0⟩], by cbv⟩
  have shifts : (⟨some (memberName "shifted"), [], none, none⟩ : Reference).Names started
      (memberName "shifted") (.field (computedField "shifted"
        (Bounds.Sample.sum (.integer {}) (.integer {}) (.integer {})) Bounds.Sample.always)) :=
    ⟨rfl, [⟨"module", 0⟩, ⟨"type", 0⟩, ⟨"structure", 0⟩, ⟨"field", 1⟩], by cbv⟩
  have number (n : Int) : WellTyped started none (number n (.integer {})) ∧
      Untouched (number n (.integer {})) := ⟨.number rfl, .leaf rfl (by rintro _ ⟨⟩; rfl)⟩
  have truth : WellTyped started none Bounds.Sample.always ∧ Untouched Bounds.Sample.always :=
    ⟨.truth rfl, .leaf rfl (by decide)⟩
  have each (a : Address) (e : Expression) (there : started.expressionAt? a = some e) :
      WellTyped started none e ∧ Untouched e := by
    have isPart := mem_filterMap.2 ⟨_, Node.mem_contents_of_inner? (Node.top?_eq_some.1 there),
      (rfl : Node.expression? (.expression e) = some e)⟩
    rw [expressions_started] at isPart
    simp only [mem_cons, not_mem_nil, or_false] at isPart
    rcases isPart with rfl | rfl | rfl | rfl | rfl | rfl | rfl
    · exact number 0
    · exact number 1
    · exact truth
    · refine ⟨.operation (fun arg isArgument => ?_) ⟨rfl, rfl⟩, .call (by decide) fun arg
        isArgument => ?_⟩
      · rcases mem_pair.1 isArgument with rfl | rfl
        · exact .stored rfl counts rfl rfl (by decide)
        · exact (number 10).1
      · rcases mem_pair.1 isArgument with rfl | rfl <;> exact .leaf rfl (by decide)
    · exact truth
    · refine ⟨.operation (fun arg isArgument => ?_) ⟨rfl, rfl⟩, .call (by decide) fun arg
        isArgument => ?_⟩
      · rcases mem_pair.1 isArgument with rfl | rfl
        · exact (number 300).1
        · exact .computed rfl shifts rfl rfl rfl
      · rcases mem_pair.1 isArgument with rfl | rfl <;> exact .leaf rfl (by decide)
    · exact truth
  exact ⟨fun a e there => (each a e there).1, fun a e there => (each a e there).2⟩

theorem computes_started : computeConstants started = .ok (finished, []) := by
  simp only [computeConstants, computeProgram, chainDepth, Program.partsOf, Program.visits,
    Node.walk_eq_search]
  cbv

theorem computes_startedLarge : computeConstants startedLarge = .ok (finishedLarge, []) := by
  simp only [computeConstants, computeProgram, chainDepth, Program.partsOf, Program.visits,
    Node.walk_eq_search]
  cbv

theorem computed_finished : Computed finished :=
  computeConstants_computed prepared_started computes_started

theorem accepted_finished : Constraint.check finished = .ok (finished, []) := by
  simp only [Constraint.check, Program.partsOf, Program.visits, Node.walk_eq_search]
  rw [forIn_checkName Field.name (areFree_of_all (by decide +kernel)),
    forIn_checkName TypeDefinition.name (areFree_of_all (by decide +kernel))]
  cbv

theorem accepted_finishedLarge : Constraint.check finishedLarge = .ok (finishedLarge, []) := by
  simp only [Constraint.check, Program.partsOf, Program.visits, Node.walk_eq_search]
  rw [forIn_checkName Field.name (areFree_of_all (by decide +kernel)),
    forIn_checkName TypeDefinition.name (areFree_of_all (by decide +kernel))]
  cbv

end Sample

end BinaryLayout.Constraint
