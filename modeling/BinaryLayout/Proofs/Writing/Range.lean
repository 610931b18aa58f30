import BinaryLayout.Proofs.Bounds.WellFormed
import BinaryLayout.Proofs.Writing.Inverse

/-!
# The range of what is written

The expression that is written in place of a virtual field is made after all ranges have been
checked.  Main statement: its bounds are those of the reference that it is written to, and all
operations that code computes for it fit in types of 64 bits.

Where a sum or difference is undone, the new operation has the bounds of the old one and of its two
arguments, in another order.  So the new operation fits where the old one does.
-/

namespace BinaryLayout.Writing

open IR Typing Bounds Checked List
open Constraint (Fits Holds Varies Performs wideTypes expressionErrors)

/-! ## The numbers in bounds -/

/-- The numbers that make up finite bounds.  The modulus of a single value is zero. -/
@[ext]
structure Figures where
  modulus : Nat
  remainder : Int
  low : Int
  high : Int
  reduced : remainder % modulus = remainder

namespace Figures

variable {c d : Figures} {l r t : IntegerType} {isSum : Bool} {e : Expression}
  {left right : Expression} {own : ExpressionType}

/-- Bounds are made up of some numbers. -/
structure Describes (d : Figures) (t : IntegerType) : Prop where
  modulus : divisorOf t.modulus = .ok d.modulus
  remainder : finite t.modularValue = .ok d.remainder
  low : finite t.minimum = .ok d.low
  high : finite t.maximum = .ok d.high
  isSingle : t.modulus = some .infinity ↔ d.modulus = 0

/-- All values between the ends are values of a type. -/
def IsIn (d : Figures) (wide : Cpp.IntType) : Prop :=
  wide.holds d.low d.high = true

def single (n : Int) : Figures :=
  ⟨0, n, n, n, by simp⟩

/-- The numbers of a sum or difference. -/
def combine (isSum : Bool) (c d : Figures) : Figures where
  modulus := c.modulus.gcd d.modulus
  remainder := (if isSum then c.remainder + d.remainder else c.remainder - d.remainder) %
    (c.modulus.gcd d.modulus : Nat)
  low := if isSum then c.low + d.low else c.low - d.high
  high := if isSum then c.high + d.high else c.high - d.low
  reduced := Int.emod_emod ..

theorem modulus_combine_single (isSum : Bool) (d : Figures) (n : Int) :
    (combine isSum d (single n)).modulus = d.modulus ∧
      (combine isSum (single n) d).modulus = d.modulus := by
  simp [combine, single]

/-- A single value that is added is taken away again, and the other way around. -/
theorem combine_cancel (d : Figures) (n : Int) :
    (∀ isSum, combine (!isSum) (combine isSum d (single n)) (single n) = d) ∧
      combine false (combine true (single n) d) (single n) = d ∧
      combine false (single n) (combine false (single n) d) = d := by
  rcases d with ⟨m, r, low, high, reduced⟩
  simp [combine, single, reduced]

theorem Describes.unique (first : c.Describes t) (second : d.Describes t) : c = d := by
  have sameModulus := Except.ok.inj (first.modulus.symm.trans second.modulus)
  ext
  · exact Int.ofNat.inj sameModulus
  · exact Except.ok.inj (first.remainder.symm.trans second.remainder)
  · exact Except.ok.inj (first.low.symm.trans second.low)
  · exact Except.ok.inj (first.high.symm.trans second.high)

theorem Describes.varies (describes : d.Describes t) (hasType : e.type = some (.integer t)) :
    Varies e ↔ d.modulus ≠ 0 := by
  rw [Varies, hasType, ne_eq, ← describes.isSingle]
  simp [ExpressionType.isConstant]

theorem Describes.fits {wide : Cpp.IntType} (describes : d.Describes t)
    (hasType : e.type = some (.integer t)) : Fits wide e ↔ d.IsIn wide := by
  constructor
  · intro fits
    rcases fits t hasType with ⟨_, _, isLow, isHigh, holds⟩
    cases describes.low.symm.trans isLow
    cases describes.high.symm.trans isHigh
    exact holds
  · intro holds _ again
    cases hasType.symm.trans again
    exact ⟨_, _, describes.low, describes.high, holds⟩

/-- The bounds of a constant are made up of one number. -/
theorem Describes.exists_single (describes : d.Describes t)
    (infinite : t.modulus = some .infinity) (isLow : t.minimum = t.modularValue)
    (isHigh : t.maximum = t.modularValue) : ∃ n, d = single n := by
  refine ⟨d.remainder, ?_⟩
  ext
  · exact describes.isSingle.1 infinite
  · rfl
  · exact Except.ok.inj (describes.low.symm.trans (isLow ▸ describes.remainder))
  · exact Except.ok.inj (describes.high.symm.trans (isHigh ▸ describes.remainder))

theorem exists_describes {low high : Int} (consistent : checkConsistent t = .ok ())
    (isLow : finite t.minimum = .ok low) (isHigh : finite t.maximum = .ok high) :
    ∃ d : Figures, d.Describes t := by
  rcases consistent_cases consistent isLow isHigh with ⟨infinite, lowIs, highIs⟩ |
    ⟨m, r, notInfinite, isModulus, pos, isRemainder, congruent, _⟩
  · refine ⟨single low, by rw [infinite]; rfl, lowIs ▸ isLow, isLow, ?_, by simp [infinite, single]⟩
    rw [highIs, ← lowIs]
    exact isLow
  · obtain ⟨m, rfl⟩ := Int.eq_ofNat_of_zero_le pos.le
    refine ⟨⟨m, r, low, high, by rw [← congruent, Int.emod_emod]⟩, isModulus, isRemainder, isLow,
      isHigh, ?_⟩
    simp only [notInfinite, false_iff]
    omega

/-! ## Sums and differences -/

/-- The numbers of a sum or difference are computed from those of its arguments. -/
theorem Describes.additive (onLeft : c.Describes l) (onRight : d.Describes r)
    (leftType : left.type = some (.integer l)) (rightType : right.type = some (.integer r))
    {result : ExpressionType} (run : Bounds.additive isSum own [left, right] = .ok result) :
    ∃ t, result = .integer t ∧ (combine isSum c d).Describes t := by
  rcases additive_eq_ok run with ⟨_, _, value, modulus, remainder, low, high, sameLeft, sameRight,
    valueRun, modulusRun, reduced, lowRun, highRun, rfl⟩
  cases leftType.symm.trans sameLeft
  cases rightType.symm.trans sameRight
  have common := gcd_of_divisorOf onLeft.modulus onRight.modulus (by simp) (by simp)
  rw [Int.gcd_natCast_natCast] at common
  cases common.symm.trans modulusRun
  have isSingle : some (Bounds.modulus (c.modulus.gcd d.modulus)) = some .infinity ↔
      c.modulus.gcd d.modulus = 0 := by
    simp [Bounds.modulus]
  cases isSum with
  | true =>
    cases (add_of_finite onLeft.remainder onRight.remainder).symm.trans valueRun
    cases (reduce_modulus _ _).symm.trans reduced
    cases (add_of_finite onLeft.low onRight.low).symm.trans lowRun
    cases (add_of_finite onLeft.high onRight.high).symm.trans highRun
    exact ⟨_, rfl, divisorOf_modulus _, rfl, rfl, rfl, isSingle⟩
  | false =>
    cases (sub_of_finite onLeft.remainder onRight.remainder).symm.trans valueRun
    cases (reduce_modulus _ _).symm.trans reduced
    cases (sub_of_finite onLeft.low onRight.high).symm.trans lowRun
    cases (sub_of_finite onLeft.high onRight.low).symm.trans highRun
    exact ⟨_, rfl, divisorOf_modulus _, rfl, rfl, rfl, isSingle⟩

theorem finite_of_additive {a b : Bound} {n : Numeral} {k : Int}
    (run : (if isSum then add else sub) a b = .ok n) (known : finite (some n) = .ok k) :
    (∃ x, finite a = .ok x) ∧ ∃ y, finite b = .ok y := by
  have ofOrdered {a b : Bound} (run : addOrdered a b = .ok n) :
      (∃ x, finite a = .ok x) ∧ ∃ y, finite b = .ok y := by
    unfold addOrdered at run
    split at run
    · rcases bind_eq_ok.1 run with ⟨_, _, same⟩
      cases same
      cases known
    · rcases bind_eq_ok.1 run with ⟨_, _, same⟩
      cases same
      cases known
    · simp only [bind_eq_ok] at run
      rcases run with ⟨x, isLeft, y, isRight, _⟩
      exact ⟨⟨x, isLeft⟩, y, isRight⟩
  have ofSum {a b : Bound} (run : add a b = .ok n) :
      (∃ x, finite a = .ok x) ∧ ∃ y, finite b = .ok y := by
    unfold add at run
    split at run
    · exact (ofOrdered run).symm
    · exact ofOrdered run
  cases isSum with
  | true => exact ofSum run
  | false =>
    simp only [Bool.false_eq_true, if_false] at run
    unfold sub at run
    split at run
    · rcases (ofSum run).2 with ⟨_, impossible⟩
      cases impossible
    · rcases (ofSum run).2 with ⟨_, impossible⟩
      cases impossible
    · rcases bind_eq_ok.1 run with ⟨y, isRight, run⟩
      exact ⟨(ofSum run).1, y, isRight⟩

theorem Describes.exists_parts (describes : d.Describes t)
    (run : Bounds.additive isSum own [left, right] = .ok (.integer t))
    (leftType : left.type = some (.integer l)) (rightType : right.type = some (.integer r))
    (leftConsistent : checkConsistent l = .ok ()) (rightConsistent : checkConsistent r = .ok ()) :
    ∃ c c', c.Describes l ∧ c'.Describes r ∧ d = combine isSum c c' := by
  rcases additive_eq_ok run with ⟨_, _, _, _, _, low, high, sameLeft, sameRight, _, _, _, lowRun,
    highRun, same⟩
  cases leftType.symm.trans sameLeft
  cases rightType.symm.trans sameRight
  cases same
  rcases finite_of_additive lowRun describes.low with ⟨⟨_, leftLow⟩, _, rightLow⟩
  rcases finite_of_additive highRun describes.high with ⟨⟨_, leftHigh⟩, _, rightHigh⟩
  obtain ⟨c, onLeft⟩ := exists_describes leftConsistent leftLow leftHigh
  have ends : ∃ low high, finite r.minimum = .ok low ∧ finite r.maximum = .ok high := by
    cases isSum with
    | true => exact ⟨_, _, rightLow, rightHigh⟩
    | false => exact ⟨_, _, rightHigh, rightLow⟩
  rcases ends with ⟨_, _, isLow, isHigh⟩
  obtain ⟨c', onRight⟩ := exists_describes rightConsistent isLow isHigh
  rcases onLeft.additive onRight leftType rightType run with ⟨_, same, combined⟩
  cases same
  exact ⟨c, c', onLeft, onRight, describes.unique combined⟩

end Figures

/-! ## One step -/

section Bears

variable {b c d : Figures} {t : IntegerType} {left right e result body arg other : Expression}
  {p : Program} {operator : Operator} {args : List Expression} {whole : Int → Int → Int}
  {change : Expression → Expression}

/-- Every operation that code computes for an expression fits in a type of 64 bits. -/
def IsComputable (e : Expression) : Prop :=
  ∀ operator args word location note, Performs e (.function operator args word location note) →
    ∃ wide ∈ wideTypes, ∀ clause ∈ .function operator args word location note :: args,
      Fits wide clause

/-- What is computed for an expression has some numbers as its bounds, and all that code computes
for it fits. -/
def Bears (d : Figures) (e : Expression) : Prop :=
  ∀ depth s e' s', (compute depth e).run s = .ok (e', s') →
    (∃ t, e'.type = some (.integer t) ∧ d.Describes t) ∧ IsComputable e'

theorem bears_writtenValue (describes : d.Describes t) :
    Bears d (writtenValue (some (.integer t))) := by
  intro depth s e' s' run
  rcases writtenValue_run run with ⟨rfl, _⟩
  refine ⟨⟨t, rfl, describes⟩, fun _ _ _ _ _ performs => ?_⟩
  cases performs

/-- Code does not compute a constant. -/
theorem HasOneValue.bears (one : HasOneValue e) (describes : d.Describes t)
    (hasType : e.type = some (.integer t)) : Bears d e := by
  intro depth s e' s' run
  rcases one.compute run with ⟨rfl, _⟩
  refine ⟨⟨t, hasType, describes⟩, fun _ _ _ _ _ performs => ?_⟩
  have varies : Varies e' := by
    cases performs with
    | here varies => exact varies
    | argument varies => exact varies
  rcases one with ⟨_, again, isConstant⟩
  rw [varies _ again] at isConstant
  cases isConstant

theorem Bears.arithmetic (isSum : Bool) (first : Bears c left) (second : Bears d right)
    (combined : Figures.combine isSum c d = b)
    (fits : b.modulus ≠ 0 → ∃ wide ∈ wideTypes, c.IsIn wide ∧ d.IsIn wide ∧ b.IsIn wide) :
    Bears b (arithmetic (if isSum then .addition else .subtraction) left right) := by
  subst combined
  intro depth s e' s' run
  rcases arithmetic_run (by cases isSum <;> simp) run with
    ⟨left', right', _, result, leftRun, rightRun, rule, rfl⟩
  rcases first _ _ _ _ leftRun with ⟨⟨l, leftType, onLeft⟩, leftFits⟩
  rcases second _ _ _ _ rightRun with ⟨⟨r, rightType, onRight⟩, rightFits⟩
  have rule : additive isSum (.integer {}) [left', right'] = .ok result := by
    cases isSum <;> exact rule
  rcases onLeft.additive onRight leftType rightType rule with ⟨t, rfl, describes⟩
  refine ⟨⟨t, rfl, describes⟩, fun _ _ _ _ _ performs => ?_⟩
  cases performs with
  | here varies =>
    rcases fits ((describes.varies rfl).1 varies) with ⟨wide, isWide, onLeft', onRight', onWhole⟩
    refine ⟨wide, isWide, fun clause member => ?_⟩
    simp only [mem_cons, not_mem_nil, or_false] at member
    rcases member with rfl | rfl | rfl
    · exact (describes.fits rfl).2 onWhole
    · exact (onLeft.fits leftType).2 onLeft'
    · exact (onRight.fits rightType).2 onRight'
  | argument _ member inner =>
    rcases mem_pair.1 member with rfl | rfl
    · exact leftFits _ _ _ _ _ inner
    · exact rightFits _ _ _ _ _ inner

/-- Where a sum or difference is undone, the bounds of the argument come back. -/
theorem Undoes.bears {own : ExpressionType} {a o : IntegerType}
    (undoes : Undoes operator args arg other whole change)
    (rule : operatorType operator own args = .ok (.integer t))
    (argType : arg.type = some (.integer a)) (otherType : other.type = some (.integer o))
    (argConsistent : checkConsistent a = .ok ()) (otherConsistent : checkConsistent o = .ok ())
    (one : HasOneValue other) (describes : d.Describes t)
    (fits : d.modulus ≠ 0 → ∃ wide ∈ wideTypes, d.IsIn wide ∧
      ∀ part ∈ args, Fits wide part) (bears : Bears d result) :
    ∃ c, c.Describes a ∧ c.modulus = d.modulus ∧ Bears c (change result) := by
  have infinite : o.modulus = some .infinity := by
    rcases one with ⟨_, again, isConstant⟩
    cases otherType.symm.trans again
    exact beq_iff_eq.1 isConstant
  rcases ends_of_infinite otherConsistent infinite with ⟨isLow, isHigh⟩
  have around {c k : Figures} (onArg : c.Describes a) (onOther : k.Describes o)
      (same : c.modulus = d.modulus) (nonzero : c.modulus ≠ 0) :
      ∃ wide ∈ wideTypes, d.IsIn wide ∧ k.IsIn wide ∧ c.IsIn wide := by
    rcases fits (same ▸ nonzero) with ⟨wide, isWide, onWhole, onParts⟩
    exact ⟨wide, isWide, onWhole, (onOther.fits otherType).1 (onParts other undoes.mem.2.1),
      (onArg.fits argType).1 (onParts arg undoes.mem.1)⟩
  -- the new operation cancels the old one, with the three bounds in another order
  cases undoes with
  | firstSummand | minuend =>
    rcases describes.exists_parts rule argType otherType argConsistent otherConsistent with
      ⟨c, k, onArg, onOther, rfl⟩
    obtain ⟨n, rfl⟩ := onOther.exists_single infinite isLow isHigh
    have same (isSum) := (Figures.modulus_combine_single isSum c n).1.symm
    exact ⟨c, onArg, same _, bears.arithmetic _ (one.bears onOther otherType)
      ((Figures.combine_cancel c n).1 _) (around onArg onOther (same _))⟩
  | secondSummand =>
    rcases describes.exists_parts rule otherType argType otherConsistent argConsistent with
      ⟨k, c, onOther, onArg, rfl⟩
    obtain ⟨n, rfl⟩ := onOther.exists_single infinite isLow isHigh
    have same := (Figures.modulus_combine_single true c n).2.symm
    exact ⟨c, onArg, same, bears.arithmetic false (one.bears onOther otherType)
      (Figures.combine_cancel c n).2.1 (around onArg onOther same)⟩
  | subtrahend =>
    rcases describes.exists_parts rule otherType argType otherConsistent argConsistent with
      ⟨k, c, onOther, onArg, rfl⟩
    obtain ⟨n, rfl⟩ := onOther.exists_single infinite isLow isHigh
    have same := (Figures.modulus_combine_single false c n).2.symm
    refine ⟨c, onArg, same, (one.bears onOther otherType).arithmetic false bears
      (Figures.combine_cancel c n).2.2 fun nonzero => ?_⟩
    rcases around onArg onOther same nonzero with ⟨wide, isWide, onWhole, onOther', onArg'⟩
    exact ⟨wide, isWide, onOther', onWhole, onArg'⟩

end Bears

/-! ## All steps -/

section Solution

variable {p : Program} {e result body : Expression} {r : FieldReference} {inner : Annotation}

theorem Solution.inside (solution : Solution e r inner result body) :
    Inside e (.fieldReference r inner) := by
  induction solution with
  | here => exact .here
  | undo undoes _ _ ih => exact .argument undoes.mem.1 ih

/-- The bounds of a solution are those of the reference, if those of what stands for the value of
the expression are those of the expression. -/
theorem Solution.bears {t : IntegerType} {d : Figures} (solution : Solution e r inner result body)
    (solvable : Solvable p e) (hasType : e.type = some (.integer t)) (describes : d.Describes t)
    (checked : Varies e → ∃ file, expressionErrors file e = .ok []) (bears : Bears d result) :
    ∃ c refBounds, inner.type = some (.integer refBounds) ∧ c.Describes refBounds ∧
      Bears c body := by
  induction solution generalizing t d with
  | here => exact ⟨d, t, hasType, describes, bears⟩
  | @undo operator args arg other result _ _ _ _ _ note _ _ undoes free _ ih =>
    rcases solvable with ⟨wellTyped, complete, plain⟩
    rcases undoes.parts wellTyped complete with ⟨⟨own, _, noted, rule⟩, _, each⟩
    cases noted.symm.trans hasType
    rcases each arg undoes.mem.1 with ⟨argSort, argTyped, argComplete⟩
    rcases each other undoes.mem.2.1 with ⟨otherSort, _, otherComplete⟩
    rcases integer_of_sort argSort with ⟨a, argType⟩
    rcases integer_of_sort otherSort with ⟨o, otherType⟩
    have one := undoes.hasOneValue free wellTyped complete plain
    have varies := describes.varies hasType
    have fits (nonzero : d.modulus ≠ 0) :
        ∃ wide ∈ wideTypes, d.IsIn wide ∧ ∀ part ∈ args, Fits wide part := by
      rcases checked (varies.2 nonzero) with ⟨file, run⟩
      rcases Constraint.fits_of_expressionErrors run (.here (varies.2 nonzero)) with
        ⟨wide, isWide, fits⟩
      exact ⟨wide, isWide, (describes.fits hasType).1 (fits _ mem_cons_self),
        fun part member => fits part (mem_cons_of_mem _ member)⟩
    rcases undoes.bears rule argType otherType (consistent_of_complete argComplete argType)
      (consistent_of_complete otherComplete otherType) one describes fits bears with
      ⟨c, onArg, same, argBears⟩
    refine ih ⟨argTyped, argComplete, fun part inside =>
      plain part (.argument undoes.mem.1 inside)⟩ argType onArg (fun argVaries => ?_) argBears
    have isOpen := varies.2 (same ▸ (onArg.varies argType).1 argVaries)
    rcases checked isOpen with ⟨file, run⟩
    exact ⟨file, Constraint.expressionErrors_of_argumentErrors
      (Constraint.expressionErrors_function isOpen run).1 undoes.mem.1⟩

end Solution

/-! ## The whole program -/

/-- In an accepted program a virtual integer that is written through another field is turned into
a number with the bounds of the reference to that field, and all operations that code computes for
it fit in types of 64 bits. -/
theorem transform_fits {p q s : Program} {groups : List MessageGroup} {a : Address} {f : Field}
    {e : Expression} {t : IntegerType} {transform : WriteTransform} (computed : Computed p)
    (accepted : Constraint.check p = .ok (q, []))
    (explicit : ∀ a f e, p.fieldAt? a = some f → f.readTransform = some e → Explicit e)
    (unmarked : Unmarked p) (run : setWriteMethods p = .ok (s, groups))
    (there : s.fieldAt? a = some f) (reads : f.readTransform = some e)
    (isInteger : e.type = some (.integer t))
    (method : f.writeMethod = some (.transform transform)) :
    ∃ body r inner bounds refBounds, ∃ d : Figures, transform = ⟨some body, some r⟩ ∧
      Inside e (.fieldReference r inner) ∧ body.type = some (.integer bounds) ∧
      inner.type = some (.integer refBounds) ∧ d.Describes bounds ∧ d.Describes refBounds ∧
      IsComputable body := by
  have solvable := solvable_of_accepted computed accepted explicit
  have marking := marking_of_setWriteMethods solvable unmarked run
  rcases marking.original there with ⟨g, before, _, sameReads⟩
  have reads' := sameReads.trans reads
  rcases Constraint.expressionErrors_of_check accepted
    (Constraint.atRunTime_read (Program.fieldAt?_eq_some.1 before) reads') with ⟨file, checked⟩
  obtain ⟨d, describes⟩ : ∃ d : Figures, d.Describes t := by
    rcases Constraint.fits_of_ownRangeErrors
      (Constraint.ownRangeErrors_of_expressionErrors checked) with ⟨wide, _, fits⟩
    rcases fits t isInteger with ⟨_, _, isLow, isHigh, _⟩
    exact Figures.exists_describes (consistent_of_complete
      (solvable a g e before reads').complete isInteger) isLow isHigh
  have written : Written p s a := by
    rcases marking.written a f there (by simp [method]) with readOnly | written
    · cases method.symm.trans readOnly
    · exact written
  cases written with
  | physical there' _ method' =>
    cases there.symm.trans there'
    cases method.symm.trans method'
  | @onward _ _ _ _ body r _ there' _ again solved method' carries _ _ =>
    cases there.symm.trans there'
    cases reads.symm.trans again
    cases method.symm.trans method'
    cases carries with
    | @transform body' bounded _ =>
      rcases bounded with ⟨_, _, _, computing⟩
      rcases (solvable a g e before reads').solution solved with ⟨inner, solution⟩
      rw [isInteger] at solution
      rcases solution.bears (solvable a g e before reads') isInteger describes
        (fun _ => ⟨file, checked⟩) (bears_writtenValue describes) with
        ⟨c, refBounds, refType, onReference, bears⟩
      rcases bears _ _ _ _ computing with ⟨⟨bounds, bodyType, onBody⟩, computable⟩
      exact ⟨body', r, inner, bounds, refBounds, c, rfl, solution.inside, bodyType, refType, onBody,
        onReference, computable⟩

/-- What is 300 less a virtual field is written with the bounds of that field. -/
theorem transform_fits_mirrored :
    setWriteMethods Constraint.Sample.finished = .ok (Sample.marked, []) ∧
      (∃ d : Figures, d.Describes ⟨some (.int 1), some (.int 0), some (.int 10), some (.int 265)⟩) ∧
      IsComputable Sample.mirror := by
  have there : Sample.marked.fieldAt?
      [⟨"module", 0⟩, ⟨"type", 0⟩, ⟨"structure", 0⟩, ⟨"field", 2⟩] = some Sample.mirroredField := by
    cbv
  rcases transform_fits Constraint.Sample.computed_finished Constraint.Sample.accepted_finished
    Sample.explicit_finished Sample.unmarked_finished Sample.marks_finished there rfl rfl rfl with
    ⟨_, _, _, _, _, d, same, _, bodyType, _, describes, _, computable⟩
  cases same
  cases bodyType
  exact ⟨Sample.marks_finished, ⟨d, describes⟩, computable⟩

namespace Sample

open Constraint.Sample

/-- The value that is written less one. -/
def oneLess : Expression :=
  .function (some .subtraction) [writtenValue (some (.integer
    ⟨some (.int 1), some (.int 0), some (.int 1), some (.int 256)⟩)), knownOne] none none
    { type := some Bounds.Sample.ofByte }

/-- The field that is one more than a byte is written to the byte. -/
theorem writes_oneLess :
    (fun out : Program × List MessageGroup => (out.2, (out.1.fieldAt?
      [⟨"module", 0⟩, ⟨"type", 0⟩, ⟨"structure", 0⟩, ⟨"field", 1⟩]).bind Field.writeMethod)) <$>
        setWriteMethods finishedLarge =
      .ok ([], some (.transform ⟨some oneLess, some (target "counter")⟩)) := by
  simp only [setWriteMethods, Bounds.chainDepth, Program.visits, Node.walk_eq_search]
  cbv

end Sample

/-- A constant is copied with its parts, and these have not been checked. -/
theorem transform_exceeds :
    computeConstants Constraint.Sample.startedLarge = .ok (Constraint.Sample.finishedLarge, []) ∧
    Constraint.check Constraint.Sample.finishedLarge = .ok (Constraint.Sample.finishedLarge, []) ∧
    (∃ s a f, setWriteMethods Constraint.Sample.finishedLarge = .ok (s, []) ∧
      s.fieldAt? a = some f ∧
      f.writeMethod = some (.transform ⟨some Sample.oneLess, some (Sample.target "counter")⟩)) ∧
    ¬ ∀ operator args word location note,
      Inside Sample.oneLess (.function operator args word location note) →
      ∃ wide ∈ wideTypes, ∀ clause ∈ .function operator args word location note :: args,
        Fits wide clause := by
  refine ⟨Constraint.Sample.computes_startedLarge, Constraint.Sample.accepted_finishedLarge,
    ?_, fun fits => ?_⟩
  · rcases map_eq_ok.1 Sample.writes_oneLess with ⟨⟨s, groups⟩, run, written⟩
    rcases Prod.mk.inj written with ⟨rfl, isMethod⟩
    rcases Option.bind_eq_some_iff.1 isMethod with ⟨f, there, method⟩
    exact ⟨s, _, f, run, there, method⟩
  · have inside : Inside Sample.oneLess Constraint.Sample.knownOne :=
      .argument (mem_cons_of_mem _ (mem_singleton_self _)) .here
    rcases fits _ _ _ _ _ inside with ⟨wide, isWide, all⟩
    rcases all _ (mem_cons_of_mem _ mem_cons_self) _ rfl with ⟨_, _, ⟨⟩, ⟨⟩, holds⟩
    rcases mem_pair.1 isWide with rfl | rfl
    all_goals exact absurd holds (by decide)

end BinaryLayout.Writing
