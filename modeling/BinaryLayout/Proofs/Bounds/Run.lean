import Mathlib.Logic.Relation
import BinaryLayout.Proofs.Bounds.Settled

/-!
# Computing bounds settles expressions

`RestsAt p depth s a c` says that the expression at an address is settled, to `c`, in a program `s`
that has come from `p`, and that there is nothing left to compute.

Main statements: computing the bounds of an expression gives what it settles to, whatever has been
computed before.  It changes nothing but types, and doing it again later changes nothing.
-/

namespace BinaryLayout.Bounds

open IR Typing Checked List

section Steps

variable {s s' : Program} {depth : Nat} {e e' : Expression} {own t : ExpressionType}
  {source : BoundSource} {args : List Expression} {note : Annotation} {name : CanonicalName}
  {found : Found} {body : ExpressionType → BoundsM Expression} {part : Option ExpressionType}

theorem computeAll_nil : (computeAll depth []).run s = .ok (args, s') ↔ args = [] ∧ s' = s := by
  rw [computeAll, run_pure_eq_ok, Prod.mk.injEq]

theorem computeSource_known {result : ExpressionType × Program} :
    (computeSource depth own (.known t)).run s = .ok result ↔ result = (t, s) := by
  rw [computeSource, run_pure_eq_ok]

/-- An expression of which more than one value is possible is looked into. -/
theorem run_entry_eq_ok :
    (do let own ← liftM (Failure.entry part)
        if own.isConstant = true then pure e else body own : BoundsM Expression).run s =
        .ok (e', s') ↔
      ∃ own, part = some own ∧ ((own.isConstant = true ∧ e' = e ∧ s' = s) ∨
        (own.isConstant = false ∧ (body own).run s = .ok (e', s'))) := by
  rw [run_lift_bind_eq_ok]
  refine exists_congr fun own => ?_
  rw [Failure.entry_eq_ok]
  refine and_congr_right fun _ => ?_
  cases own.isConstant with
  | true => simp [@eq_comm _ e, @eq_comm _ s]
  | false => simp

theorem run_open_eq_ok {result : Expression × Program} (hasType : part = some own)
    (isOpen : own.isConstant = false) :
    (do let own ← liftM (Failure.entry part)
        if own.isConstant = true then pure e else body own : BoundsM Expression).run s =
        .ok result ↔ (body own).run s = .ok result := by
  rw [run_lift_bind_eq_ok]
  simp [hasType, isOpen]

theorem presenceSource_run (own : ExpressionType) (word : Option Word) (location : Option Location)
    (note : Annotation) :
    (presenceSource args).run s = (fun source => (source, s)) <$>
      sourceOf s own (.function (some .presence) args word location note) := by
  have onward (r : FieldReference) (rest : Found → BoundsM BoundSource)
      (same : ∀ found, (rest found).run s = (fun source => (source, s)) <$> presenceOf found) :
      (do rest (← liftM ((← get).resolve (← liftM (Failure.lastOf r.path)))) :
        BoundsM BoundSource).run s = (fun source => (source, s)) <$>
          (do presenceOf (← s.resolve (← Failure.lastOf r.path))) := by
    simp [same]
  simp only [presenceSource, sourceOf, StateT.run_bind]
  cases Failure.element args 0 with
  | error => rfl
  | ok arg =>
    cases arg with
    | fieldReference r =>
      refine onward r _ fun found => ?_
      rw [presenceOf]
      cases found.object <;> rfl
    | _ => rfl

/-- Every expression is looked at in the same way: its arguments come first, and then the source
of its type. -/
theorem compute_eq : compute depth e = (do
    let own ← liftM (Failure.entry e.type)
    if own.isConstant = true then return e
    let args ← computeAll depth (arguments e)
    let source ← liftM (sourceOf (← get) own (withArguments args e))
    let t ← computeSource depth own source
    liftM (settle (withArguments args e) t) : BoundsM Expression) := by
  have known (own t : ExpressionType) : computeSource depth own (.known t) = pure t := by
    rw [computeSource]
  rw [compute]
  refine congrArg _ (funext fun own => ?_)
  split
  · rfl
  refine StateT.ext fun s => ?_
  cases e with
  | function operator args word location note =>
    rcases operator with _ | operator
    · simp [arguments, withArguments, sourceOf]
      rfl
    · cases operator
      case presence => simp [arguments, withArguments, presenceSource_run own word location note]
      all_goals simp [arguments, withArguments, sourceOf, known]
  | constantReference r =>
    simp only [arguments, withArguments, sourceOf, computeAll, pure_bind, StateT.run_bind]
    cases r.canonicalName with
    | none => rfl
    | some name => simp [findNamedObject]
  | fieldReference => simp [arguments, withArguments, sourceOf, computeAll]
  | unset =>
    simp [arguments, withArguments, sourceOf, computeAll]
    rfl
  | _ => simp [arguments, withArguments, sourceOf, computeAll, known, plainType]

/-- One expression: a single value is left alone.  Otherwise the arguments come first and the
source of the type second. -/
theorem compute_eq_ok :
    (compute depth e).run s = .ok (e', s') ↔ ∃ own, e.type = some own ∧
      ((own.isConstant = true ∧ e' = e ∧ s' = s) ∨
        (own.isConstant = false ∧ ∃ args middle source t,
          (computeAll depth (arguments e)).run s = .ok (args, middle) ∧
          sourceOf middle own (withArguments args e) = .ok source ∧
          (computeSource depth own source).run middle = .ok (t, s') ∧
          settle (withArguments args e) t = .ok e')) := by
  rw [compute_eq, run_entry_eq_ok]
  refine exists_congr fun own => and_congr_right fun _ => or_congr_right
    (and_congr_right fun _ => ?_)
  simp only [run_bind_eq_ok, run_get_eq_ok, run_liftM_eq_ok, Prod.mk.injEq]
  constructor
  · rintro ⟨args, middle, argsRun, _, _, ⟨rfl, rfl⟩, source, _, ⟨_, sourceIs, rfl, rfl⟩, t, _, run,
      _, settled, rfl, rfl⟩
    exact ⟨args, _, source, t, argsRun, sourceIs, run, settled⟩
  · rintro ⟨args, middle, source, t, argsRun, sourceIs, run, settled⟩
    exact ⟨args, middle, argsRun, _, _, ⟨rfl, rfl⟩, source, _, ⟨_, sourceIs, rfl, rfl⟩, t, _, run,
      _, settled, rfl, rfl⟩

end Steps

/-! ## Only types change -/

mutual

/-- An expression without its types. -/
def untyped : Expression → Expression
  | .function operator args word location note =>
    .function operator (untypedAll args) word location { note with type := none }
  | e => e.withType none

def untypedAll : List Expression → List Expression
  | [] => []
  | e :: rest => untyped e :: untypedAll rest

end

theorem untyped_withType (e : Expression) (t : Option ExpressionType) :
    untyped (e.withType t) = untyped e := by
  cases e <;> rfl

theorem untypedAll_congr {args args' : List Expression}
    (same : Forall₂ (fun e e' => untyped e' = untyped e) args args') :
    untypedAll args' = untypedAll args := by
  induction same with
  | nil => rfl
  | cons head _ ih => rw [untypedAll, untypedAll, head, ih]

theorem Settles.untyped {p s : Program} {e e' : Expression} (settles : Settles p s e e') :
    Bounds.untyped e' = Bounds.untyped e := by
  induction settles with
  | kept => rfl
  | @opened e _ _ _ _ _ _ _ _ sameLength _ _ _ _ _ settled ih =>
    rw [(settle_eq_ok.1 settled).2, untyped_withType]
    cases e with
    | function =>
      rw [withArguments, Bounds.untyped, Bounds.untyped,
        untypedAll_congr (forall₂_of_zip sameLength ih)]
      rfl
    | _ => rfl

/-- One expression gets other types, or one parameter another type. -/
inductive Retypes (p : Program) : Program → Prop
  | expression {a : Address} {e e' : Expression} (there : p.at? a = some (.expression e))
      (same : untyped e' = untyped e) : Retypes p (p.put a (.expression e'))
  | parameter {a : Address} {q : RuntimeParameter} {t : Option ExpressionType}
      (there : p.at? a = some (.parameter q)) :
      Retypes p (p.put a (.parameter { q with type := t }))

/-- Two programs differ only in the types of expressions: names lead to the same places, and the
same expressions stand there. -/
structure Retyped (s s' : Program) : Prop where
  skeleton : s'.skeleton = s.skeleton
  expressions : ∀ a, (s'.expressionAt? a).map untyped = (s.expressionAt? a).map untyped

/-! ## The run -/

/-- A program comes from another by settling expressions where they stand. -/
structure Refines (p s : Program) : Prop where
  evolves : Evolves (fun before c => c = before ∨ Settles p s before c) p s
  retypes : Relation.ReflTransGen Retypes p s

/-- The expression at an address is settled, and computing its bounds later changes nothing. -/
structure RestsAt (p : Program) (depth : Nat) (s : Program) (a : Address) (c : Expression) :
    Prop where
  there : s.expressionAt? a = some c
  settled : ∃ before, p.expressionAt? a = some before ∧ Settles p s before c
  rests : ∀ q, Keeps p s q → (computeAt depth a).run q = .ok (c, q)

/-- Computing the bounds of the expression at an address brings it to rest. -/
def AtDepth (p : Program) (depth : Nat) : Prop :=
  ∀ s s' a c c', Refines p s → s.expressionAt? a = some c →
    (computeAt depth a).run s = .ok (c', s') →
    Refines p s' ∧ Keeps p s s' ∧ RestsAt p depth s' a c'

/-- Computing the bounds of an expression settles it, in any program that comes from some first
one, and computing them again later changes nothing. -/
def Computes (p : Program) (depth : Nat) (e : Expression) : Prop :=
  ∀ s s' e', Refines p s → (compute depth e).run s = .ok (e', s') →
    Refines p s' ∧ Keeps p s s' ∧ Settles p s' e e' ∧
      ∀ q, Keeps p s' q → (compute depth e').run q = .ok (e', q)

section Run

variable {p q s s' : Program} {depth : Nat} {a : Address} {e e' c c' : Expression}
  {own own' t : ExpressionType} {source : BoundSource} {args args' : List Expression}

theorem Refines.refl (p : Program) : Refines p p :=
  ⟨.refl (fun _ => .inl rfl) p, .refl⟩

theorem Refines.retyped (refines : Refines p s) : Retyped p s where
  skeleton := refines.evolves.skeleton
  expressions := fun a => by
    have rel := refines.evolves.expressions a
    generalize p.expressionAt? a = part, s.expressionAt? a = part' at rel ⊢
    cases rel with
    | none => rfl
    | some grown =>
      rcases grown with rfl | settles
      · rfl
      · rw [Option.map_some, Option.map_some, settles.untyped]

theorem RestsAt.later (restsAt : RestsAt p depth s a c) (keeps : Keeps p s s') :
    RestsAt p depth s' a c := by
  rcases restsAt.settled with ⟨before, begins, settles⟩
  exact ⟨keeps.stays a c restsAt.there settles.again, ⟨before, begins, keeps.settles settles⟩,
    fun q later => restsAt.rests q (keeps.trans later)⟩

theorem computeSource_eq_ok (run : (computeSource depth own source).run s = .ok (t, s')) :
    (source = .known t ∧ s' = s) ∨ ∃ a c, source.address? = some a ∧
      (computeAt depth a).run s = .ok (c, s') ∧
      (s'.expressionAt? a = some c → readSource s' own source = .ok t) := by
  cases source with
  | known =>
    cases computeSource_known.1 run
    exact .inl ⟨rfl, rfl⟩
  | expression a =>
    simp only [computeSource, run_bind_eq_ok, run_liftM_eq_ok, Failure.require_eq_ok,
      run_pure_eq_ok, Prod.mk.injEq] at run
    rcases run with ⟨c, _, run, t, _, ⟨_, hasType, rfl, rfl⟩, rfl, rfl⟩
    exact .inr ⟨a, c, rfl, run, fun there => by
      simp [readSource, there, hasType, bind, Except.bind]⟩
  | enumValue a =>
    simp only [computeSource, run_bind_eq_ok, run_liftM_eq_ok, Prod.mk.injEq] at run
    rcases run with ⟨c, _, run, _, rule, rfl, rfl⟩
    exact .inr ⟨a, c, rfl, run, fun there => by simp [readSource, there, rule, bind, Except.bind]⟩

theorem computeAt_eq_ok :
    (computeAt (depth + 1) a).run s = .ok (c', s') ↔
      ∃ c middle, (s.at? a).bind Node.expression? = some c ∧
        (compute depth c).run s = .ok (c', middle) ∧ s' = middle.put a (.expression c') := by
  rw [computeAt]
  simp only [run_bind_eq_ok, run_get_eq_ok, run_liftM_eq_ok, Failure.require_eq_ok,
    run_modify_eq_ok, run_pure_eq_ok, Prod.mk.injEq]
  constructor
  · rintro ⟨_, _, ⟨rfl, rfl⟩, _, _, ⟨_, there, rfl, rfl⟩, _, middle, run, _, _, ⟨_, rfl⟩, rfl, rfl⟩
    exact ⟨_, middle, there, run, rfl⟩
  · rintro ⟨c, middle, there, run, rfl⟩
    exact ⟨_, _, ⟨rfl, rfl⟩, _, _, ⟨_, there, rfl, rfl⟩, _, middle, run, (), _,
      ⟨trivial, rfl⟩, rfl, rfl⟩

/-- The expression that a type is taken from stands directly in an object. -/
theorem exists_object (sourceIs : sourceOf s own e = .ok source)
    (isAddress : source.address? = some a) :
    ∃ name found step, s.find name = .ok found ∧ a = found.address ++ [step] := by
  cases e with
  | unset => cases sourceIs
  | constantReference r =>
    cases nameIs : r.canonicalName with
    | none => simp [sourceOf, nameIs] at sourceIs
    | some name =>
      simp only [sourceOf, nameIs, bind_eq_ok] at sourceIs
      rcases sourceIs with ⟨⟨address, object⟩, found, run⟩
      cases object with
      | enumValue =>
        cases run
        cases isAddress
        exact ⟨name, _, _, found, rfl⟩
      | field =>
        rcases bind_eq_ok.1 run with ⟨_, _, same⟩
        cases same
        cases isAddress
        exact ⟨name, _, _, found, rfl⟩
      | _ => cases run
  | fieldReference r =>
    simp only [sourceOf, bind_eq_ok] at sourceIs
    rcases sourceIs with ⟨last, ends, ⟨address, object⟩, found, run⟩
    rcases resolve_eq_ok.1 found with ⟨name, _, found⟩
    rw [fieldSource_eq] at run
    repeat' split at run
    on_goal 1 =>
      cases run
      cases isAddress
      exact ⟨name, _, _, found, rfl⟩
    all_goals
      rcases map_eq_ok.1 run with ⟨_, _, rfl⟩
      cases isAddress
  | function operator args =>
    rcases operator with _ | operator
    · cases sourceIs
    · cases operator
      case presence =>
        simp only [sourceOf, bind_eq_ok] at sourceIs
        rcases sourceIs with ⟨arg, _, run⟩
        cases arg with
        | fieldReference =>
          rcases bind_eq_ok.1 run with ⟨last, _, run⟩
          rcases bind_eq_ok.1 run with ⟨⟨address, object⟩, found, run⟩
          rcases resolve_eq_ok.1 found with ⟨name, _, found⟩
          cases object <;> cases run
          cases isAddress
          exact ⟨name, _, _, found, rfl⟩
        | _ => cases run
      all_goals
        rcases bind_eq_ok.1 sourceIs with ⟨_, _, same⟩
        cases same
        cases isAddress
  | _ =>
    rcases bind_eq_ok.1 sourceIs with ⟨_, _, same⟩
    cases same
    cases isAddress

/-- The expression that a type is taken from is not part of another one. -/
theorem expressionAt?_of_source (sourceIs : sourceOf s own e = .ok source)
    (isAddress : source.address? = some a) :
    s.expressionAt? a = (s.at? a).bind Node.expression? := by
  rcases exists_object sourceIs isAddress with ⟨name, ⟨address, object⟩, step, found, rfl⟩
  have outer : object.node.kind ≠ .expression := by cases object <;> simp [Object.node, Node.kind]
  rw [expressionAt?_append found, Program.at?, Node.at?_append,
    Node.at?_of_inner? (Program.inner?_of_find found), Option.bind_some, Node.top?, Node.inner?,
    if_neg outer, Node.at?]
  rfl

/-- What is known of an expression at rest is found without a change. -/
theorem computeSource_of_read (rests : ∀ a, source.address? = some a →
      ∃ c, s.expressionAt? a = some c ∧ (computeAt depth a).run s = .ok (c, s))
    (read : readSource s own source = .ok t) :
    (computeSource depth own source).run s = .ok (t, s) := by
  cases source with
  | known =>
    cases read
    exact computeSource_known.2 rfl
  | expression a =>
    rcases rests a rfl with ⟨c, there, run⟩
    simp only [readSource, there, bind_eq_ok, Failure.require_eq_ok, Option.some.injEq,
      exists_eq_left', pure_eq_ok] at read
    rcases read with ⟨t', hasType, rfl⟩
    rw [computeSource]
    exact run_bind_eq_ok.2 ⟨c, s, run, run_lift_bind_eq_ok.2
      ⟨t', Failure.require_eq_ok.2 hasType, rfl⟩⟩
  | enumValue a =>
    rcases rests a rfl with ⟨c, there, run⟩
    simp only [readSource, there, bind_eq_ok, Failure.require_eq_ok, Option.some.injEq,
      exists_eq_left'] at read
    rw [computeSource]
    exact run_bind_eq_ok.2 ⟨c, s, run, run_liftM_eq_ok.2 ⟨t, read, rfl⟩⟩

/-- The expression at the source of a type is settled first. -/
theorem AtDepth.looks (atDepth : AtDepth p depth) (refines : Refines p s)
    (sourceIs : sourceOf s own e = .ok source)
    (run : (computeSource depth own source).run s = .ok (t, s')) :
    Refines p s' ∧ Keeps p s s' ∧ readSource s' own source = .ok t ∧
      (∃ before, (∀ a, source.address? = some a → p.expressionAt? a = some before) ∧
        ∀ a c, source.address? = some a → s'.expressionAt? a = some c → Settles p s' before c) ∧
      ∀ q, Keeps p s' q → ∀ a, source.address? = some a →
        ∃ c, q.expressionAt? a = some c ∧ (computeAt depth a).run q = .ok (c, q) := by
  rcases computeSource_eq_ok run with ⟨rfl, rfl⟩ | ⟨a, c, isAddress, run, read⟩
  · exact ⟨refines, .refl p _, rfl, ⟨e, by rintro _ ⟨⟩, by rintro _ _ ⟨⟩⟩, by rintro _ _ _ ⟨⟩⟩
  · have there : ∃ c, s.expressionAt? a = some c := by
      cases depth with
      | zero =>
        rw [computeAt] at run
        exact (run_throw_ne_ok run).elim
      | succ =>
        rcases computeAt_eq_ok.1 run with ⟨c, _, there, _⟩
        exact ⟨c, (expressionAt?_of_source sourceIs isAddress).trans there⟩
    rcases there with ⟨_, there⟩
    rcases atDepth s s' a _ c refines there run with ⟨refines', keeps, restsAt⟩
    rcases restsAt.settled with ⟨before, begins, settles⟩
    rw [isAddress]
    refine ⟨refines', keeps, read restsAt.there, ⟨before, ?_, ?_⟩, ?_⟩
    · rintro _ ⟨⟩
      exact begins
    · rintro _ c' ⟨⟩ again
      cases restsAt.there.symm.trans again
      exact settles
    · rintro q keeps' _ ⟨⟩
      exact ⟨c, (restsAt.later keeps').there, restsAt.rests q keeps'⟩

theorem computeAll_settles (each : ∀ arg ∈ args, Computes p depth arg) (refines : Refines p s)
    (run : (computeAll depth args).run s = .ok (args', s')) :
    Refines p s' ∧ Keeps p s s' ∧ args.length = args'.length ∧
      (∀ pair ∈ args.zip args', Settles p s' pair.1 pair.2) ∧
      ∀ q, Keeps p s' q → (computeAll depth args').run q = .ok (args', q) := by
  induction args generalizing s args' with
  | nil =>
    rcases computeAll_nil.1 run with ⟨rfl, rfl⟩
    exact ⟨refines, .refl p _, rfl, by simp, fun q _ => computeAll_nil.2 ⟨rfl, rfl⟩⟩
  | cons head tail ih =>
    rw [computeAll] at run
    simp only [run_bind_eq_ok, run_pure_eq_ok, Prod.mk.injEq] at run
    rcases run with ⟨first, middle, headRun, rest, _, tailRun, rfl, rfl⟩
    rw [forall_mem_cons] at each
    rcases each.1 s middle first refines headRun with ⟨refines', toMiddle, settles, rests⟩
    rcases ih each.2 refines' tailRun with ⟨refines'', toEnd, sameLength, others, restsToo⟩
    refine ⟨refines'', toMiddle.trans toEnd, congrArg Nat.succ sameLength, ?_, fun q keeps => ?_⟩
    · rw [zip_cons_cons, forall_mem_cons]
      exact ⟨toEnd.settles settles, others⟩
    · rw [computeAll]
      simp only [run_bind_eq_ok, run_pure_eq_ok]
      exact ⟨first, q, rests q (toEnd.trans keeps), rest, q, restsToo q keeps, rfl⟩

theorem computes_of_arguments (atDepth : AtDepth p depth)
    (each : ∀ arg ∈ arguments e, Computes p depth arg) : Computes p depth e := by
  intro s s' e' refines run
  rcases compute_eq_ok.1 run with ⟨own, hasType, ⟨isConstant, rfl, rfl⟩ |
    ⟨isOpen, args, middle, source, t, argsRun, sourceIs, run, settled⟩⟩
  · exact ⟨refines, .refl p _, .kept hasType isConstant,
      fun q _ => compute_eq_ok.2 ⟨own, hasType, .inl ⟨isConstant, rfl, rfl⟩⟩⟩
  · rcases computeAll_settles each refines argsRun with
      ⟨refines', toMiddle, sameLength, settles, argsRest⟩
    rcases atDepth.looks refines' sourceIs run with
      ⟨refines'', toEnd, read, ⟨before, begins, target⟩, rests⟩
    refine ⟨refines'', toMiddle.trans toEnd, .opened hasType isOpen sameLength
      (fun pair member => toEnd.settles (settles pair member))
      (sourceOf_evolves toEnd.toEvolves sourceIs) begins target read settled, fun q keeps => ?_⟩
    have hasType' := type_of_settle settled
    refine compute_eq_ok.2 ⟨t, hasType', ?_⟩
    cases isConstant : t.isConstant with
    | true => exact .inl ⟨rfl, rfl, rfl⟩
    | false =>
      have read' := keeps.readSource target read
      have sourceIs' := sourceOf_again (sourceOf_evolves (toEnd.trans keeps).toEvolves sourceIs)
        read' isConstant
      rcases arguments_of_settle sameLength settled with ⟨argumentsAre, same⟩
      rw [← (settle_eq_ok.1 settled).2] at sourceIs'
      refine .inr ⟨rfl, args, q, source, t, ?_, ?_,
        computeSource_of_read (rests q keeps) (readSource_again read' isConstant), ?_⟩
      · rw [argumentsAre]
        exact argsRest q (toEnd.trans keeps)
      · rwa [same]
      · rw [same]
        exact settle_again settled

theorem computes (atDepth : AtDepth p depth) (e : Expression) : Computes p depth e :=
  computes_of_arguments atDepth fun arg _ => computes atDepth arg
termination_by sizeOf e
decreasing_by
  rename_i member
  cases e with
  | function operator args =>
    have smaller : sizeOf arg < sizeOf args := sizeOf_lt_of_mem member
    simp only [Expression.function.sizeOf_spec]
    omega
  | _ => cases member

/-- An expression is put in the place of one that it settles from, or of itself. -/
theorem Refines.put {before : Expression} (refines : Refines p s)
    (begins : p.expressionAt? a = some before) (settles : Settles p s before c') :
    Refines p (s.put a (.expression c')) ∧ Keeps p s (s.put a (.expression c')) := by
  rcases exists_of_rel (refines.evolves.expressions a) begins with ⟨c, there, grown⟩
  have same (b : Address) (other : b ≠ a) :
      (s.put a (.expression c')).expressionAt? b = s.expressionAt? b :=
    Program.expressionAt?_put_of_ne there other
  have here : (s.put a (.expression c')).expressionAt? a = some c' :=
    Program.expressionAt?_put_self there
  have skeleton := @Program.skeleton_putExpression s a c c' there
  have keeps : Keeps p s (s.put a (.expression c')) := by
    refine ⟨⟨skeleton, fun b => ?_⟩, fun b c₁ found rests => ?_⟩
    · by_cases isHere : b = a
      · rw [isHere, there, here]
        rcases grown with rfl | grown
        · exact .some settles.remains
        · rw [settles.unique grown]
          exact .some fun _ known => known
      · rw [same b isHere]
        exact (Keeps.refl p s).expressions b
    · by_cases isHere : b = a
      · subst isHere
        cases there.symm.trans found
        rw [here]
        rcases grown with rfl | grown
        · rw [settles.unique rests]
        · rw [settles.unique grown]
      · rwa [same b isHere]
  refine ⟨⟨⟨skeleton.trans refines.evolves.skeleton, fun b => ?_⟩, refines.retypes.tail ?_⟩, keeps⟩
  · by_cases isHere : b = a
    · rw [isHere, begins, here]
      exact .some (.inr (keeps.settles settles))
    · rw [same b isHere]
      exact (refines.evolves.mono fun _ _ => Or.imp_right keeps.settles).expressions b
  · refine .expression (Program.at?_of_expressionAt? there) ?_
    rw [settles.untyped]
    rcases grown with rfl | grown
    · rfl
    · rw [grown.untyped]

theorem atDepth (p : Program) (depth : Nat) : AtDepth p depth := by
  induction depth with
  | zero =>
    intro s s' a c c' refines there run
    rw [computeAt] at run
    exact (run_throw_ne_ok run).elim
  | succ depth ih =>
    intro s s' a c c' refines there run
    rcases computeAt_eq_ok.1 run with ⟨_, middle, isThere, run, rfl⟩
    rw [Program.at?_of_expressionAt? there] at isThere
    cases isThere
    rcases computes ih c s middle c' refines run with ⟨refines', keeps, settles, rests⟩
    rcases exists_before_of_rel (refines.evolves.expressions a) there with ⟨before, begins, grown⟩
    have settles' : Settles p middle before c' := by
      rcases grown with rfl | grown
      · exact settles
      · -- a settled expression has been computed once more
        have again := keeps.settles grown
        rwa [settles.unique again.again]
    rcases refines'.put begins settles' with ⟨refines'', further⟩
    rcases exists_of_rel (refines'.evolves.expressions a) begins with ⟨_, there', _⟩
    have here := @Program.expressionAt?_put_self middle a _ c' there'
    refine ⟨refines'', keeps.trans further, here, ⟨before, begins, further.settles settles'⟩,
      fun q later => ?_⟩
    have stays := later.stays a c' here (further.settles settles'.again)
    have isThere := Program.at?_of_expressionAt? stays
    refine computeAt_eq_ok.2 ⟨c', q, ?_, rests q (further.trans later), ?_⟩
    · rw [isThere]
      rfl
    · exact (Program.put_self isThere).symm

end Run

end BinaryLayout.Bounds
