import BinaryLayout.Proofs.Writing.Closed
import BinaryLayout.Writing.Invert

/-!
# Solving for a field

An expression with one reference to a field under sums and differences is solved by undoing them
from the outside in.  Main statements: the solution has the value of the field exactly if the
expression has the value that is written, and it lies in the range of the field if that value lies
in the range of the expression.
-/

namespace BinaryLayout.Writing

open IR Typing Bounds Checked

variable {operator : Option Operator} {args : List Expression} {word : Option Word}
  {location : Option Location} {note : Annotation} {p : Program} {logical : Option ExpressionType}
  {e result : Expression} {path : List Nat} {left right : Expression}
  {change : Expression → Expression} {whole : Int → Int → Int} {arg other : Expression}

/-! ## The way to the reference -/

/-- An expression that refers to no field. -/
def FieldFree (e : Expression) : Prop :=
  (references e).1 = 0

theorem count_arguments (index : Nat) (args : List Expression) :
    (argumentReferences index args).1 = (args.map fun arg => (references arg).1).sum := by
  induction args generalizing index with
  | nil => rfl
  | cons _ _ ih =>
    rw [argumentReferences, List.map_cons, List.sum_cons, ← ih (index + 1)]

theorem fieldFree_function :
    FieldFree (.function operator args word location note) ↔ ∀ arg ∈ args, FieldFree arg := by
  rw [FieldFree, references, count_arguments, List.sum_eq_zero_iff]
  simp [FieldFree]

/-- What may stand in the expression of a virtual field: no word of the language that depends on
where it is used, and no truth value that is not written out. -/
def Expression.IsPlain : Expression → Prop
  | .builtinReference _ _ => False
  | .booleanConstant b _ => b.value.isSome
  | .constantReference _ note => ∃ t, note.type = some t ∧ t.isConstant = true
  | _ => True

theorem closed_of_fieldFree (wellTyped : WellTyped p logical e) (free : FieldFree e)
    (plain : ∀ part, Inside e part → Expression.IsPlain part) : Closed e := by
  induction wellTyped with
  | number => exact .number
  | truth =>
    rcases Option.isSome_iff_exists.1 (plain _ .here) with ⟨_, written⟩
    exact .truth written
  | logicalValue | staticSize | isStaticallySized => exact (plain _ .here).elim
  | enumValue | fixed =>
    rcases plain _ .here with ⟨t, hasType, isConstant⟩
    exact .fixed hasType isConstant
  | stored | computed => cases free
  | operation _ accepts ih =>
    rw [fieldFree_function] at free
    refine .operation ?_ fun arg member => ?_
    · rintro rfl
      exact accepts
    · exact ih arg member (free arg member) fun part inside =>
        plain part (.argument member inside)
  | presence => cases free

/-! ## Undoing sums and differences -/

/-- In a sum or difference of an argument and another one, the value of the whole that comes of
the two values, and how the argument is got back from the whole. -/
inductive Undoes : Operator → List Expression → Expression → Expression → (Int → Int → Int) →
    (Expression → Expression) → Prop
  | firstSummand {arg other : Expression} :
      Undoes .addition [arg, other] arg other (fun i o => i + o)
        fun result => arithmetic .subtraction result other
  | secondSummand {arg other : Expression} :
      Undoes .addition [other, arg] arg other (fun i o => o + i)
        fun result => arithmetic .subtraction result other
  | minuend {arg other : Expression} :
      Undoes .subtraction [arg, other] arg other (fun i o => i - o)
        fun result => arithmetic .addition result other
  | subtrahend {arg other : Expression} :
      Undoes .subtraction [other, arg] arg other (fun i o => o - i)
        fun result => arithmetic .subtraction other result

/-- The reference that an expression is solved for, and the solution, given what stands for the
value of the expression. -/
inductive Solution : Expression → FieldReference → Annotation → Expression → Expression → Prop
  | here {r : FieldReference} {note : Annotation} {result : Expression} :
      Solution (.fieldReference r note) r note result result
  | undo {operator : Operator} {args : List Expression} {arg other result body : Expression}
      {whole : Int → Int → Int} {change : Expression → Expression} {word : Option Word}
      {location : Option Location} {note inner : Annotation} {r : FieldReference}
      (undoes : Undoes operator args arg other whole change) (free : FieldFree other)
      (solution : Solution arg r inner (change result) body) :
      Solution (.function (some operator) args word location note) r inner result body

theorem sole_of_pair
    (sole : references (.function operator [left, right] word location note) = (1, path)) :
    (∃ rest, path = 0 :: rest ∧ references left = (1, rest) ∧ FieldFree right) ∨
      ∃ rest, path = 1 :: rest ∧ references right = (1, rest) ∧ FieldFree left := by
  rcases inLeft : references left with ⟨m, leftPath⟩
  rcases inRight : references right with ⟨n, rightPath⟩
  simp only [references, argumentReferences, inLeft, inRight, Prod.mk.injEq] at sole
  rcases sole with ⟨count, pathIs⟩
  rw [if_pos count] at pathIs
  have split : m = 1 ∧ n = 0 ∨ m = 0 ∧ n = 1 := by omega
  rcases split with ⟨rfl, rfl⟩ | ⟨rfl, rfl⟩
  · exact .inl ⟨leftPath, by simpa using pathIs.symm, rfl, by rw [FieldFree, inRight]⟩
  · exact .inr ⟨rightPath, by simpa using pathIs.symm, rfl, by rw [FieldFree, inLeft]⟩

/-- Only sums and differences can be undone. -/
theorem additive_of_solve {operator : Operator} {solution : FieldReference × Expression}
    (run : solve path (.function (some operator) args word location note) result =
      .ok (some solution)) : operator = .addition ∨ operator = .subtraction := by
  cases path with
  | nil => cases run
  | cons => cases operator <;> first | exact .inl rfl | exact .inr rfl | cases run

theorem solution_of_solve {body : Expression} {r : FieldReference}
    (wellTyped : WellTyped p logical e) (sole : references e = (1, path))
    (run : solve path e result = .ok (some (r, body))) : ∃ note, Solution e r note result body := by
  induction wellTyped generalizing path result with
  | number | truth | logicalValue | staticSize | isStaticallySized | enumValue | fixed => cases sole
  | stored | computed =>
    cases sole
    cases run
    exact ⟨_, .here⟩
  | presence =>
    rcases additive_of_solve run with impossible | impossible <;> cases impossible
  | @operation _ args _ _ note _ accepts ih =>
    have additive := additive_of_solve run
    have sorts : args.map sort? = [some .integer, some .integer] := by
      rcases additive with rfl | rfl <;> exact accepts.1
    simp only [List.map_eq_cons_iff, List.map_eq_nil_iff] at sorts
    rcases sorts with ⟨left, _, rfl, _, right, _, rfl, _, rfl⟩
    rcases additive with rfl | rfl <;>
      rcases sole_of_pair sole with ⟨rest, rfl, inner, free⟩ | ⟨rest, rfl, inner, free⟩
    · rcases ih left (by simp) inner run with ⟨note, solution⟩
      exact ⟨note, .undo .firstSummand free solution⟩
    · rcases ih right (by simp) inner run with ⟨note, solution⟩
      exact ⟨note, .undo .secondSummand free solution⟩
    · rcases ih left (by simp) inner run with ⟨note, solution⟩
      exact ⟨note, .undo .minuend free solution⟩
    · rcases ih right (by simp) inner run with ⟨note, solution⟩
      exact ⟨note, .undo .subtrahend free solution⟩

section Undoes

variable {p : Program} {ρ : Valuation} {here : Place} {operator : Operator}
  {args : List Expression} {arg other : Expression} {whole : Int → Int → Int}
  {change : Expression → Expression} {word : Option Word} {location : Option Location}
  {note : Annotation}

variable {left right : Expression} {m n : Int}

theorem Undoes.mem (undoes : Undoes operator args arg other whole change) :
    arg ∈ args ∧ other ∈ args ∧ operator ≠ .presence := by
  cases undoes <;> simp

/-- The two arguments are integers with bounds, and so is the whole. -/
theorem Undoes.parts (undoes : Undoes operator args arg other whole change)
    (wellTyped : WellTyped p none (.function (some operator) args word location note))
    (complete : Complete p (.function (some operator) args word location note)) :
    (∃ own t, note.type = some t ∧ operatorType operator own args = .ok t) ∧
      sort? (.function (some operator) args word location note) = some .integer ∧
      ∀ part ∈ args, sort? part = some .integer ∧ WellTyped p none part ∧ Complete p part := by
  rcases settled_operation undoes.mem.2.2 wellTyped complete with
    ⟨own, t, _, hasType, rule, accepts, each⟩
  have sorts : (∀ part ∈ args, sort? part = some .integer) ∧ sortOf t = some .integer := by
    cases undoes <;> simpa [Operator.Accepts] using accepts
  have isInteger : sort? (.function (some operator) args word location note) = some .integer :=
    (sort?_of_type (e := .function (some operator) args word location note) hasType).trans sorts.2
  exact ⟨⟨own, t, hasType, rule⟩, isInteger,
    fun part member => ⟨sorts.1 part member, each part member⟩⟩

/-! ## Values -/

/-- A sum or difference is that of the values of its arguments. -/
theorem Undoes.values {v : Constant} (undoes : Undoes operator args arg other whole change)
    (evaluates : Evaluates p ρ here (.function (some operator) args word location note) v) :
    ∃ i o, Evaluates p ρ here arg (.int i) ∧ Evaluates p ρ here other (.int o) ∧
      v = .int (whole i o) := by
  have two {operator : Operator} {left right : Expression} {f : Int → Int → Int}
      (isInteger : ∀ a b, operator.apply [a, b] = some v →
        ∃ m n, a = .int m ∧ b = .int n ∧ v = .int (f m n))
      (evaluates : Evaluates p ρ here (.function (some operator) [left, right] word location note)
        v) (additive : operator = .addition ∨ operator = .subtraction) :
      ∃ m n, Evaluates p ρ here left (.int m) ∧ Evaluates p ρ here right (.int n) ∧
        v = .int (f m n) := by
    cases evaluates with
    | @operation _ _ _ _ _ _ values _ sameLength arguments applied =>
      rcases values with _ | ⟨a, _ | ⟨b, _ | _⟩⟩ <;> try cases sameLength
      rcases isInteger a b applied with ⟨m, n, rfl, rfl, rfl⟩
      exact ⟨m, n, arguments (left, .int m) (by simp), arguments (right, .int n) (by simp), rfl⟩
    | _ => simp at additive
  have sum (a b : Constant) (applied : Operator.addition.apply [a, b] = some v) :
      ∃ m n, a = .int m ∧ b = .int n ∧ v = .int (m + n) := by
    cases a <;> cases b <;> cases applied
    exact ⟨_, _, rfl, rfl, rfl⟩
  have difference (a b : Constant) (applied : Operator.subtraction.apply [a, b] = some v) :
      ∃ m n, a = .int m ∧ b = .int n ∧ v = .int (m - n) := by
    cases a <;> cases b <;> cases applied
    exact ⟨_, _, rfl, rfl, rfl⟩
  cases undoes with
  | firstSummand => exact two sum evaluates (.inl rfl)
  | minuend => exact two difference evaluates (.inr rfl)
  | secondSummand =>
    rcases two sum evaluates (.inl rfl) with ⟨m, n, left, right, isSum⟩
    exact ⟨n, m, right, left, isSum⟩
  | subtrahend =>
    rcases two difference evaluates (.inr rfl) with ⟨m, n, left, right, isDifference⟩
    exact ⟨n, m, right, left, isDifference⟩

theorem evaluates_pair {a b c : Constant} (first : Evaluates p ρ here left a)
    (second : Evaluates p ρ here right b) (applied : operator.apply [a, b] = some c) :
    Evaluates p ρ here (.function (some operator) [left, right] word location note) c := by
  have arguments : ∀ pair ∈ [left, right].zip [a, b], Evaluates p ρ here pair.1 pair.2 := by
    simp [first, second]
  exact .operation rfl arguments applied

/-- An expression has one value at a place. -/
def Yields (p : Program) (ρ : Valuation) (here : Place) (e : Expression) (v : Constant) : Prop :=
  ∀ c, Evaluates p ρ here e c ↔ c = v

theorem Undoes.yields (undoes : Undoes operator [left, right] left right whole change)
    (applied : operator.apply [.int m, .int n] = some (.int (whole m n)))
    (first : Yields p ρ here left (.int m)) (second : Yields p ρ here right (.int n)) :
    Yields p ρ here (arithmetic operator left right) (.int (whole m n)) := by
  intro c
  constructor
  · intro evaluates
    rcases undoes.values evaluates with ⟨i, o, leftIs, rightIs, rfl⟩
    cases (first _).1 leftIs
    cases (second _).1 rightIs
    rfl
  · rintro rfl
    exact evaluates_pair ((first _).2 rfl) ((second _).2 rfl) applied

/-- The argument is got back from the value of the whole. -/
theorem Undoes.solves {o : Int} (undoes : Undoes operator args arg other whole change)
    (written : Yields p ρ here result (.int n)) (known : Yields p ρ here other (.int o)) :
    ∃ m, Yields p ρ here (change result) (.int m) ∧ ∀ i, whole i o = n ↔ i = m := by
  cases undoes with
  | firstSummand | secondSummand =>
    exact ⟨n - o, Undoes.minuend.yields rfl written known, fun i => by beta_reduce; omega⟩
  | minuend => exact ⟨n + o, Undoes.firstSummand.yields rfl written known, fun i => by beta_reduce; omega⟩
  | subtrahend => exact ⟨o - n, Undoes.minuend.yields rfl known written, fun i => by beta_reduce; omega⟩

end Undoes

/-! ## Ranges -/

structure Between (bounds : IntegerType) (n : Int) : Prop where
  low : AtLeast bounds.minimum n
  high : AtMost bounds.maximum n

section Range

variable {a b : Bound} {sum difference : Numeral} {n o side : Int}

theorem isInfinite_iff : isInfinite a = true ↔ a = some .infinity ∨ a = some .negInfinity := by
  rcases a with _ | (_ | _ | _ | _) <;> simp [isInfinite, Numeral.isInfinite]

theorem addOrdered_of_finite (known : finite b = .ok o) :
    addOrdered a b = (do return .int ((← finite a) + o)) := by
  have notInfinite := not_isInfinite_of_finite known
  unfold addOrdered
  split
  · cases notInfinite
  · cases notInfinite
  · rw [known]
    rfl

theorem add_cases (known : finite b = .ok o) (run : add a b = .ok sum) :
    (∃ m, finite a = .ok m ∧ sum = .int (m + o)) ∨ isInfinite a = true ∧ a = some sum := by
  cases infinite : isInfinite a with
  | false =>
    rw [add, infinite, if_neg Bool.false_ne_true, addOrdered_of_finite known] at run
    rcases bind_eq_ok.1 run with ⟨m, isFinite, same⟩
    exact .inl ⟨m, isFinite, (pure_eq_ok.1 same).symm⟩
  | true =>
    rw [add, infinite, if_pos rfl] at run
    rcases isInfinite_iff.1 infinite with rfl | rfl <;>
      rcases bind_eq_ok.1 run with ⟨_, _, same⟩ <;> cases same <;> exact .inr ⟨rfl, rfl⟩

theorem add_comm_of_finite (known : finite a = .ok o) : add a b = add b a := by
  rw [add, not_isInfinite_of_finite known, if_neg Bool.false_ne_true, add]
  split
  · rfl
  · rename_i notInfinite
    rw [addOrdered_of_finite known]
    unfold addOrdered
    split
    · exact (notInfinite rfl).elim
    · exact (notInfinite rfl).elim
    · rw [known]
      cases finite b with
      | error => rfl
      | ok m =>
        change Except.ok (Numeral.int (o + m)) = Except.ok (Numeral.int (m + o))
        rw [Int.add_comm]

theorem beyond_of_add (isSide : side = 1 ∨ side = -1) (known : finite b = .ok o)
    (run : add a b = .ok sum) (beyond : Beyond side (some sum) n) : Beyond side a (n - o) := by
  rcases add_cases known run with ⟨m, isFinite, rfl⟩ | ⟨infinite, rfl⟩
  · rcases beyond with impossible | ⟨_, ⟨⟩, le⟩
    · rcases isSide with rfl | rfl <;> cases impossible
    · exact .inr ⟨m, isFinite, by linarith⟩
  · rcases beyond with same | ⟨_, isFinite, _⟩
    · exact .inl same
    · cases (not_isInfinite_of_finite isFinite).symm.trans infinite

/-- Taking a bound from an integer turns it around. -/
theorem sub_cases (known : finite a = .ok o) (run : sub a b = .ok difference) :
    (∃ m, finite b = .ok m ∧ difference = .int (o - m)) ∨
      ∃ s, (s = 1 ∨ s = -1) ∧ b = some (infinityOfSign s) ∧ difference = infinityOfSign (-s) := by
  unfold sub at run
  split at run
  · rcases add_cases known ((add_comm_of_finite known).symm.trans run) with ⟨_, ⟨⟩, _⟩ | ⟨_, ⟨⟩⟩
    exact .inr ⟨1, .inl rfl, rfl, rfl⟩
  · rcases add_cases known ((add_comm_of_finite known).symm.trans run) with ⟨_, ⟨⟩, _⟩ | ⟨_, ⟨⟩⟩
    exact .inr ⟨-1, .inr rfl, rfl, rfl⟩
  · rcases bind_eq_ok.1 run with ⟨m, isFinite, run⟩
    rw [add_of_finite known rfl] at run
    cases run
    exact .inl ⟨m, isFinite, rfl⟩

theorem beyond_of_sub (isSide : side = 1 ∨ side = -1) (known : finite a = .ok o)
    (run : sub a b = .ok difference) (beyond : Beyond side (some difference) n) :
    Beyond (-side) b (o - n) := by
  rcases sub_cases known run with ⟨m, isFinite, rfl⟩ | ⟨s, isSign, rfl, rfl⟩
  · rcases beyond with impossible | ⟨_, ⟨⟩, le⟩
    · rcases isSide with rfl | rfl <;> cases impossible
    · exact .inr ⟨m, isFinite, by linarith⟩
  · rcases isSide with rfl | rfl <;> rcases isSign with rfl | rfl <;>
      rcases beyond with ⟨⟨⟩⟩ | ⟨_, ⟨⟩, _⟩ <;> exact .inl rfl

/-- An argument of a sum or difference is in its range if the whole is and the other argument is
constant. -/
theorem Undoes.between {operator : Operator} {own : ExpressionType} {bounds argBounds : IntegerType}
    {i : Int} (undoes : Undoes operator args arg other whole change)
    (rule : operatorType operator own args = .ok (.integer bounds))
    (argType : arg.type = some (.integer argBounds)) (one : HasOneValue other)
    (complete : Complete p other) (known : Known other (.int o))
    (between : Between bounds (whole i o)) : Between argBounds i := by
  have ends {otherBounds : IntegerType} (otherType : other.type = some (.integer otherBounds)) :
      finite otherBounds.minimum = .ok o ∧ finite otherBounds.maximum = .ok o := by
    rcases one.integer complete otherType with ⟨infinite, low, high⟩
    rw [low, high]
    exact ⟨(known.bounded otherType).eq_of_infinite infinite,
      (known.bounded otherType).eq_of_infinite infinite⟩
  have atLeast := beyond_one.2 between.low
  have atMost := beyond_neg_one.2 between.high
  suffices sides : Beyond 1 argBounds.minimum i ∧ Beyond (-1) argBounds.maximum i from
    ⟨beyond_one.1 sides.1, beyond_neg_one.1 sides.2⟩
  cases undoes
  all_goals
    rcases additive_eq_ok rule with ⟨l, r, _, _, _, _, _, leftType, rightType, _, _, _, low, high, same⟩
    cases same
  case firstSummand =>
    cases argType.symm.trans leftType
    have lower := beyond_of_add (.inl rfl) (ends rightType).1 low atLeast
    have upper := beyond_of_add (.inr rfl) (ends rightType).2 high atMost
    rw [Int.add_sub_cancel] at lower upper
    exact ⟨lower, upper⟩
  case secondSummand =>
    cases argType.symm.trans rightType
    rw [if_pos rfl, if_pos rfl, add_comm_of_finite (ends leftType).1] at low
    rw [if_pos rfl, if_pos rfl, add_comm_of_finite (ends leftType).2] at high
    have lower := beyond_of_add (.inl rfl) (ends leftType).1 low atLeast
    have upper := beyond_of_add (.inr rfl) (ends leftType).2 high atMost
    rw [add_sub_cancel_left] at lower upper
    exact ⟨lower, upper⟩
  case minuend =>
    cases argType.symm.trans leftType
    rw [if_neg Bool.false_ne_true, if_neg Bool.false_ne_true,
      sub_eq_add_of_finite (ends rightType).2] at low
    rw [if_neg Bool.false_ne_true, if_neg Bool.false_ne_true,
      sub_eq_add_of_finite (ends rightType).1] at high
    have lower := beyond_of_add (.inl rfl) rfl low atLeast
    have upper := beyond_of_add (.inr rfl) rfl high atMost
    rw [sub_neg_eq_add, Int.sub_add_cancel] at lower upper
    exact ⟨lower, upper⟩
  case subtrahend =>
    cases argType.symm.trans rightType
    have upper := beyond_of_sub (.inl rfl) (ends leftType).1 low atLeast
    have lower := beyond_of_sub (.inr rfl) (ends leftType).2 high atMost
    rw [Int.sub_sub_self] at lower upper
    exact ⟨lower, upper⟩

end Range

/-! ## Solutions -/

/-- An expression has a value at a place, whatever the fields hold. -/
def Readable (p : Program) (here : Place) (e : Expression) : Prop :=
  ∀ ρ, Admissible p ρ → ∃ v, Evaluates p ρ here e v

section Solution

variable {p : Program} {here : Place} {e result body : Expression} {r : FieldReference}
  {inner : Annotation}

theorem Undoes.hasOneValue {operator : Operator}
    (undoes : Undoes operator args arg other whole change) (free : FieldFree other)
    (wellTyped : WellTyped p none (.function (some operator) args word location note))
    (complete : Complete p (.function (some operator) args word location note))
    (plain : ∀ part, Inside (.function (some operator) args word location note) part →
      Expression.IsPlain part) :
    HasOneValue other := by
  rcases (undoes.parts wellTyped complete).2.2 other undoes.mem.2.1 with
    ⟨_, isTyped, isComplete⟩
  have closed := closed_of_fieldFree isTyped free fun part inside =>
    plain part (.argument undoes.mem.2.1 inside)
  exact closed.hasOneValue isTyped isComplete

theorem Solution.reference (solution : Solution e r inner result body)
    (wellTyped : WellTyped p none e) (complete : Complete p e) :
    WellTyped p none (.fieldReference r inner) ∧ Complete p (.fieldReference r inner) ∧
      sort? (.fieldReference r inner) = sort? e := by
  induction solution with
  | here => exact ⟨wellTyped, complete, rfl⟩
  | undo undoes _ _ ih =>
    rcases undoes.parts wellTyped complete with ⟨_, isInteger, each⟩
    rcases each _ undoes.mem.1 with ⟨sort, isTyped, isComplete⟩
    rcases ih isTyped isComplete with ⟨refTyped, refComplete, refSort⟩
    exact ⟨refTyped, refComplete, refSort.trans (sort.trans isInteger.symm)⟩

theorem integer_of_sort (sort : sort? e = some .integer) :
    ∃ bounds, e.type = some (.integer bounds) := by
  cases hasType : e.type with
  | none => simp [sort?, hasType] at sort
  | some t =>
    rw [sort?_of_type hasType] at sort
    cases t with
    | integer bounds => exact ⟨bounds, rfl⟩
    | _ => cases sort

/-- What has to be stored for an expression to have a value that is written: the field that the
expression is solved for has this value exactly if the expression has the one that is written,
and it is in the range of the field if that one is in the range of the expression. -/
structure Inverse (p : Program) (here : Place) (e reference : Expression) (k m : Constant) :
    Prop where
  isInteger : sort? e = some .integer → ∃ n, m = .int n
  reads : ∀ ρ v, (sort? e = some .integer → Admissible p ρ) → Evaluates p ρ here e v →
    ∃ c, Evaluates p ρ here reference c ∧ (v = k ↔ c = m)
  between : ∀ bounds n, e.type = some (.integer bounds) → k = .int n → Between bounds n →
    ∃ refBounds n', reference.type = some (.integer refBounds) ∧ m = .int n' ∧
      Between refBounds n'

theorem Solution.inverse {ρ' : Valuation} {k : Constant} (typed : AllTyped p)
    (solution : Solution e r inner result body) (wellTyped : WellTyped p none e)
    (complete : Complete p e) (plain : ∀ part, Inside e part → Expression.IsPlain part)
    (readable : Readable p here e) (isInteger : sort? e = some .integer → ∃ n, k = .int n)
    (admissible' : Admissible p ρ') (written : Yields p ρ' here result k) :
    ∃ m, Yields p ρ' here body m ∧ Inverse p here e (.fieldReference r inner) k m := by
  induction solution generalizing k with
  | here =>
    refine ⟨k, written, isInteger, fun ρ v _ evaluates => ⟨v, evaluates, .rfl⟩, ?_⟩
    exact fun bounds n hasType isWritten between => ⟨bounds, n, hasType, isWritten, between⟩
  | @undo _ _ arg other _ _ _ _ _ _ _ _ _ undoes free _ ih =>
    rcases undoes.parts wellTyped complete with ⟨⟨own, t, hasType, rule⟩, sort, each⟩
    rcases each arg undoes.mem.1 with ⟨argSort, argTyped, argComplete⟩
    rcases each other undoes.mem.2.1 with ⟨_, otherTyped, otherComplete⟩
    have one := undoes.hasOneValue free wellTyped complete plain
    have known {ρ : Valuation} {o : Constant} (admissible : Admissible p ρ)
        (evaluates : Evaluates p ρ here other o) : Known other o :=
      (sound_of_evaluates typed admissible evaluates otherTyped (fun _ given => by cases given)
        otherComplete).known
    have argReadable : Readable p here arg := by
      intro ρ admissible
      rcases readable ρ admissible with ⟨v, evaluates⟩
      rcases undoes.values evaluates with ⟨i, o, argValue, _⟩
      exact ⟨.int i, argValue⟩
    rcases isInteger sort with ⟨n, rfl⟩
    rcases readable ρ' admissible' with ⟨_, evaluates'⟩
    rcases undoes.values evaluates' with ⟨_, o, _, otherValue', _⟩
    have otherYields : Yields p ρ' here other (.int o) := by
      refine fun c => ⟨fun again => ?_, fun same => same ▸ otherValue'⟩
      exact one.unique (known admissible' again) (known admissible' otherValue')
    rcases undoes.solves written otherYields with ⟨m, changed, solves⟩
    rcases ih argTyped argComplete
      (fun part inside => plain part (.argument undoes.mem.1 inside)) argReadable
      (fun _ => ⟨m, rfl⟩) changed with ⟨w, bodyValue, inverse⟩
    refine ⟨w, bodyValue, fun _ => inverse.isInteger argSort, fun ρ v admissible evaluates => ?_,
      fun bounds _ sameType isWritten between => ?_⟩
    · rcases undoes.values evaluates with ⟨i, o₁, argValue, otherValue, rfl⟩
      cases one.unique (known (admissible sort) otherValue) (known admissible' otherValue')
      rcases inverse.reads ρ (.int i) (fun _ => admissible sort) argValue with
        ⟨c, refValue, same⟩
      refine ⟨c, refValue, ?_⟩
      rw [← same]
      simpa using solves i
    · cases isWritten
      cases Option.some.inj (hasType.symm.trans sameType)
      rcases integer_of_sort argSort with ⟨argBounds, argType⟩
      rw [← (solves m).2 rfl] at between
      exact inverse.between argBounds m argType rfl (undoes.between rule argType one
        otherComplete (known admissible' otherValue') between)

/-! ## The bounds of solutions -/

/-- Computing the bounds of an expression leaves the program alone and keeps its values. -/
def Inert (p : Program) (e : Expression) : Prop :=
  ∀ depth s e' s', (compute depth e).run s = .ok (e', s') →
    s' = s ∧ ∀ ρ here v, Evaluates p ρ here e' v ↔ Evaluates p ρ here e v

theorem HasOneValue.inert (one : HasOneValue e) : Inert p e := by
  intro depth s e' s' run
  rcases one.compute run with ⟨rfl, rfl⟩
  exact ⟨rfl, fun _ _ _ => .rfl⟩

theorem isWord_written : Reference.IsWord
    ⟨some ⟨"", ["$logical_value"]⟩, [⟨some "$logical_value", madePlace⟩], none, madePlace⟩
    "$logical_value" :=
  ⟨_, rfl, rfl⟩

theorem yields_writtenValue (ρ : Valuation) (t : Option ExpressionType) :
    Yields p ρ here (writtenValue t) ρ.logicalValue := by
  intro c
  constructor
  · intro evaluates
    cases evaluates with
    | logicalValue => rfl
    | staticSize isWord | isStaticallySized isWord =>
      exact absurd (isWord_unique isWord isWord_written) (by decide)
  · rintro rfl
    exact .logicalValue isWord_written

section Run

variable {depth : Nat} {s s' : Program} {e' : Expression}

theorem writtenValue_run (run : (compute depth (writtenValue logical)).run s = .ok (e', s')) :
    e' = writtenValue logical ∧ s' = s := by
  rw [writtenValue, compute] at run
  rcases run_lift_bind_eq_ok.1 run with ⟨own, hasType, run⟩
  cases Failure.entry_eq_ok.1 hasType
  split at run
  · cases run_pure_eq_ok.1 run
    exact ⟨rfl, rfl⟩
  · simp only [run_bind_eq_ok, run_liftM_eq_ok] at run
    rcases run with ⟨t, _, ⟨_, rule, same⟩, _, settled, same'⟩
    cases same
    cases same'
    rcases settle_eq_ok.1 settled with ⟨_, rfl⟩
    rcases builtinType_eq_ok rule with ⟨isWord, _⟩ | ⟨_, rfl⟩
    · exact absurd (isWord_unique isWord isWord_written) (by decide)
    · exact ⟨rfl, rfl⟩

/-- The bounds of a sum or difference are computed from those of its arguments. -/
theorem arithmetic_run {operator : Operator}
    (additive : operator = .addition ∨ operator = .subtraction)
    (run : (compute depth (arithmetic operator left right)).run s = .ok (e', s')) :
    ∃ left' right' middle t, (compute depth left).run s = .ok (left', middle) ∧
      (compute depth right).run middle = .ok (right', s') ∧
      operatorType operator (.integer {}) [left', right'] = .ok t ∧
      e' = .function (some operator) [left', right'] none none ⟨some t, none⟩ := by
  have hasType : (arithmetic operator left right).type = some (.integer {}) := rfl
  rw [arithmetic] at run hasType
  rw [compute, run_open_eq_ok hasType rfl] at run
  simp only [run_bind_eq_ok] at run
  rcases run with ⟨_, _, argsRun, run⟩
  simp only [computeAll, run_bind_eq_ok, run_pure_eq_ok, Prod.mk.injEq] at argsRun
  rcases argsRun with ⟨left', middle, leftRun, _, _, ⟨right', _, rightRun, _, _, ⟨rfl, rfl⟩, rfl, rfl⟩,
    rfl, rfl⟩
  rcases additive with rfl | rfl <;>
  · simp only [run_bind_eq_ok, run_liftM_eq_ok] at run
    rcases run with ⟨t, _, ⟨_, rule, same⟩, _, settled, same'⟩
    cases same
    cases same'
    exact ⟨left', right', middle, t, leftRun, rightRun, rule, (settle_eq_ok.1 settled).2⟩

end Run

theorem inert_writtenValue (t : Option ExpressionType) : Inert p (writtenValue t) := by
  intro depth s e' s' run
  rcases writtenValue_run run with ⟨rfl, rfl⟩
  exact ⟨rfl, fun _ _ _ => .rfl⟩

theorem Inert.arithmetic {operator : Operator} (first : Inert p left) (second : Inert p right)
    (additive : operator = .addition ∨ operator = .subtraction) :
    Inert p (arithmetic operator left right) := by
  intro depth s e' s' run
  rcases arithmetic_run additive run with ⟨left', right', _, t, leftRun, rightRun, _, rfl⟩
  rcases first _ _ _ _ leftRun with ⟨rfl, leftValue⟩
  rcases second _ _ _ _ rightRun with ⟨rfl, rightValue⟩
  refine ⟨rfl, fun ρ here v => ?_⟩
  rcases additive with rfl | rfl
  · constructor
    · intro evaluates
      rcases Undoes.firstSummand.values evaluates with ⟨i, o, leftIs, rightIs, rfl⟩
      exact evaluates_pair ((leftValue _ _ _).1 leftIs) ((rightValue _ _ _).1 rightIs) rfl
    · intro evaluates
      rcases Undoes.firstSummand.values evaluates with ⟨i, o, leftIs, rightIs, rfl⟩
      exact evaluates_pair ((leftValue _ _ _).2 leftIs) ((rightValue _ _ _).2 rightIs) rfl
  · constructor
    · intro evaluates
      rcases Undoes.minuend.values evaluates with ⟨i, o, leftIs, rightIs, rfl⟩
      exact evaluates_pair ((leftValue _ _ _).1 leftIs) ((rightValue _ _ _).1 rightIs) rfl
    · intro evaluates
      rcases Undoes.minuend.values evaluates with ⟨i, o, leftIs, rightIs, rfl⟩
      exact evaluates_pair ((leftValue _ _ _).2 leftIs) ((rightValue _ _ _).2 rightIs) rfl

theorem Solution.inert (solution : Solution e r inner result body)
    (wellTyped : WellTyped p none e) (complete : Complete p e)
    (plain : ∀ part, Inside e part → Expression.IsPlain part) (inert : Inert p result) :
    Inert p body := by
  induction solution with
  | here => exact inert
  | undo undoes free _ ih =>
    rcases (undoes.parts wellTyped complete).2.2 _ undoes.mem.1 with ⟨_, isTyped, isComplete⟩
    have other : Inert p _ := (undoes.hasOneValue free wellTyped complete plain).inert
    refine ih isTyped isComplete (fun part inside => plain part (.argument undoes.mem.1 inside)) ?_
    cases undoes with
    | firstSummand | secondSummand => exact inert.arithmetic other (.inr rfl)
    | minuend => exact inert.arithmetic other (.inl rfl)
    | subtrahend => exact other.arithmetic inert (.inr rfl)

end Solution

end BinaryLayout.Writing
