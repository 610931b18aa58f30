import BinaryLayout.Language.Meaning
import BinaryLayout.Proofs.Evaluation

/-!
# The meaning of expressions

The text of an expression means something by itself: brackets group, operators bind by rank, those
of one rank group to the left, a chain of comparisons is the conjunction of the comparisons of
neighbours, and a sign stands before what follows it.  `meant` reads a text so, without regard to
the tree between brackets.  `sense` is the value of an expression of the representation.
-/

namespace BinaryLayout.Language

open IR List

/-- Values for names, by the words that are written. -/
abbrev Environment := List String → Option Constant

/-- What an expression stands for: a value in every environment, if it has one there. -/
abbrev Sense := Environment → Option Constant

/-! ## Operators -/

/-- A conjunction, which one false operand decides. -/
def conjoin : Option Constant → Option Constant → Option Constant
  | some (.bool false), _ | _, some (.bool false) => some (.bool false)
  | some (.bool true), some (.bool true) => some (.bool true)
  | _, _ => none

/-- A disjunction, which one true operand decides. -/
def disjoin : Option Constant → Option Constant → Option Constant
  | some (.bool true), _ | _, some (.bool true) => some (.bool true)
  | some (.bool false), some (.bool false) => some (.bool false)
  | _, _ => none

def select (condition ifTrue ifFalse : Sense) : Sense := fun ρ =>
  match condition ρ with
  | some (.bool true) => ifTrue ρ
  | some (.bool false) => ifFalse ρ
  | _ => none

def onIntegers (f : Int → Int → Constant) : Option Constant → Option Constant → Option Constant
  | some (.int a), some (.int b) => some (f a b)
  | _, _ => none

/-- A relation of two numbers or two truth values. -/
def onAlike (f : {α : Type} → [DecidableEq α] → α → α → Bool) :
    Option Constant → Option Constant → Option Constant
  | some (.int a), some (.int b) => some (.bool (f a b))
  | some (.bool a), some (.bool b) => some (.bool (f a b))
  | _, _ => none

/-- The operators that stand between two operands. -/
def infixes : List (String × (Option Constant → Option Constant → Option Constant)) :=
  [("+", onIntegers fun a b => .int (a + b)), ("-", onIntegers fun a b => .int (a - b)),
    ("*", onIntegers fun a b => .int (a * b)), ("==", onAlike fun a b => a = b),
    ("!=", onAlike fun a b => a ≠ b), ("&&", conjoin), ("||", disjoin),
    (">", onIntegers fun a b => .bool (b < a)), (">=", onIntegers fun a b => .bool (b ≤ a)),
    ("<", onIntegers fun a b => .bool (a < b)), ("<=", onIntegers fun a b => .bool (a ≤ b))]

/-- Two operands with an operator between them. -/
def joined (operator : String) (a b : Sense) : Sense :=
  fun ρ => (infixes.lookup operator).bind fun f => f (a ρ) (b ρ)

def signed (sign : String) (a : Sense) : Sense := fun ρ =>
  match sign, a ρ with
  | "+", some (.int n) => some (.int n)
  | "-", some (.int n) => some (.int (-n))
  | _, _ => none

-- What the functions with names stand for is left open.
variable (call : String → List Sense → Sense)

/-! ## Expressions of the representation -/

def operation : Operator → List Sense → Sense
  | .choice, [c, a, b] => select c a b
  | .and, [a, b] => fun ρ => conjoin (a ρ) (b ρ)
  | .or, [a, b] => fun ρ => disjoin (a ρ) (b ρ)
  | .maximum, args => call "$max" args
  | .presence, args => call "$present" args
  | .upperBound, args => call "$upper_bound" args
  | .lowerBound, args => call "$lower_bound" args
  | o, [a, b] => fun ρ => do o.apply [← a ρ, ← b ρ]
  | _, _ => fun _ => none

def spelling (r : Reference) : List String :=
  r.sourceName.map textOf

mutual

def sense : Expression → Sense
  | .constant n _ => fun _ => match n.value with | some (.int n) => some (.int n) | _ => none
  | .booleanConstant b _ => fun _ => b.value.map .bool
  | .constantReference r _ | .builtinReference r _ => (· (spelling r))
  | .fieldReference r _ => (· (r.path.flatMap spelling))
  | .function o args _ _ _ => fun ρ => o.bind fun o => operation call o (senses args) ρ
  | .unset _ => fun _ => none

def senses : List Expression → List Sense
  | [] => []
  | e :: rest => sense e :: senses rest

end

/-! ## Texts -/

/-- What stands between brackets: operands, and operators around them. -/
inductive Piece where
  | operand (value : Sense)
  | operator (text : String)

/-- How tightly an operator binds. -/
def rankOf : String → Nat
  | "?" | ":" => 0
  | "&&" | "||" => 1
  | "==" | "!=" | "<" | "<=" | ">" | ">=" => 2
  | "+" | "-" => 3
  | "*" => 4
  | _ => 5

def chosen (first : Sense) : List (String × Sense) → Sense
  | [] => first
  | [(_, ifTrue), (_, ifFalse)] => select first ifTrue ifFalse
  | _ => fun _ => none

/-- Operators of one rank group to the left. -/
def grouped (first : Sense) (links : List (String × Sense)) : Sense :=
  links.foldl (fun left link => joined link.1 left link.2) first

/-- The comparisons of operands that stand side by side. -/
def adjacent (first : Sense) : List (String × Sense) → List Sense
  | [] => []
  | (operator, right) :: rest => joined operator first right :: adjacent right rest

/-- A chain of comparisons is the conjunction of the comparisons of adjacent operands. -/
def chained (first : Sense) (links : List (String × Sense)) : Sense :=
  match adjacent first links with
  | [] => first
  | link :: rest => rest.foldl (joined "&&") link

/-- What comes of operands with operators of a rank between them, by rank. -/
def joins : List (Sense → List (String × Sense) → Sense) :=
  [chosen, grouped, chained, grouped, grouped]

/-- Pieces taken apart at the operators of a rank. -/
def divide (rank : Nat) : List Piece → List Piece × List (String × List Piece)
  | [] => ([], [])
  | .operand value :: rest => (.operand value :: (divide rank rest).1, (divide rank rest).2)
  | .operator text :: rest =>
    if rankOf text = rank then ([], (text, (divide rank rest).1) :: (divide rank rest).2)
    else (.operator text :: (divide rank rest).1, (divide rank rest).2)

/-- The loosest operators are read first, and what is between them by the tighter ones. -/
def reading (rank : Nat) :
    List (Sense → List (String × Sense) → Sense) → List Piece → Sense
  | [], [.operand value] => value
  | [], _ => fun _ => none
  | join :: tighter, pieces =>
    join (reading (rank + 1) tighter (divide rank pieces).1)
      ((divide rank pieces).2.map fun x => (x.1, reading (rank + 1) tighter x.2))

def called (name : String) (args : List Sense) : Sense :=
  if name ∈ ["$max", "$present", "$upper_bound", "$lower_bound"] then call name args
  else fun _ => none

/-- The words of a text, without the dots between names. -/
def words (tree : LR.Tree) : List String :=
  (tree.tokens.filter (·.symbol ≠ "\".\"")).map (·.text)

def wordOf (tree : LR.Tree) : String :=
  (words tree).headD ""

mutual

/-- The pieces of a text.  One in brackets, and one with a sign, is an operand. -/
def pieces : LR.Tree → List Piece
  | .leaf t => [.operator t.text]
  | .node p children _ =>
    match p.lhs, children with
    | "negation-expression", [sign, a] =>
      [.operand (signed (wordOf sign) (reading 5 [] (pieces a)))]
    | "bottom-expression", [_, a, _] => [.operand (reading 0 joins (pieces a))]
    | "bottom-expression", [name, _, args, _] =>
      [.operand (called call (wordOf name) (argumentsOf args))]
    | "numeric-constant", [t] => [.operand fun _ => some (.int (numberValue (wordOf t)))]
    | "boolean-constant", [t] => [.operand fun _ => some (.bool (wordOf t == "true"))]
    | "constant-reference", parts | "builtin-reference", parts | "field-reference", parts =>
      [.operand (· (parts.flatMap words))]
    | _, parts => piecesOfAll parts

def piecesOfAll : List LR.Tree → List Piece
  | [] => []
  | tree :: rest => pieces tree ++ piecesOfAll rest

def argumentsOf : LR.Tree → List Sense
  | .node ⟨"comma-then-expression", _⟩ [_, a] _ => [reading 0 joins (pieces a)]
  | .node ⟨"argument-list", _⟩ [a, rest] _ => reading 0 joins (pieces a) :: argumentsOf rest
  | .node _ [a, rest] _ => argumentsOf a ++ argumentsOf rest
  | _ => []

end

/-- What the text of a parse tree means. -/
def meant (tree : LR.Tree) : Sense :=
  reading 0 joins (pieces call tree)

/-! ## Operators by rank -/

/-- Pieces with no operator looser than a rank, and what they mean. -/
def ReadsAt (rank : Nat) (pieces : List Piece) (value : Sense) : Prop :=
  (∀ text, .operator text ∈ pieces → rank ≤ rankOf text) ∧
    reading rank (joins.drop rank) pieces = value

/-- Operators of a rank with operands to their right. -/
inductive LinksAt (rank : Nat) : List Piece → List (String × Sense) → Prop
  | nil : LinksAt rank [] []
  | cons {text : String} {mark first rest : List Piece} {value : Sense}
      {links : List (String × Sense)} (isMark : mark = [.operator text])
      (isRank : rankOf text = rank) (operand : ReadsAt (rank + 1) first value)
      (others : LinksAt rank rest links) :
      LinksAt rank (mark ++ (first ++ rest)) ((text, value) :: links)

variable {rank : Nat} {ps qs : List Piece} {value : Sense} {links more : List (String × Sense)}

theorem divide_append (above : ∀ text, .operator text ∈ ps → rankOf text ≠ rank) :
    divide rank (ps ++ qs) = (ps ++ (divide rank qs).1, (divide rank qs).2) := by
  induction ps with
  | nil => rfl
  | cons piece ps ih =>
    have rest := ih fun text member => above text (mem_cons_of_mem _ member)
    cases piece with
    | operand value => rw [cons_append, divide, rest]; rfl
    | operator text => rw [cons_append, divide, if_neg (above text (by simp)), rest]; rfl

theorem LinksAt.divide (linked : LinksAt rank ps links) : (divide rank ps).1 = [] ∧
    ((divide rank ps).2.map fun x => (x.1, reading (rank + 1) (joins.drop (rank + 1)) x.2)) =
      links ∧ ∀ text, .operator text ∈ ps → rank ≤ rankOf text := by
  induction linked with
  | nil => exact ⟨rfl, rfl, nofun⟩
  | cons isMark isRank operand _ ih =>
    rcases operand with ⟨above, rfl⟩
    rcases ih with ⟨none, same, others⟩
    rw [isMark, singleton_append, Language.divide, if_pos isRank, divide_append, none, append_nil]
    · refine ⟨rfl, congrArg _ same, fun text member => ?_⟩
      simp only [mem_cons, mem_append, Piece.operator.injEq] at member
      rcases member with rfl | inOperand | inOthers
      · exact Nat.le_of_eq isRank.symm
      · exact Nat.le_of_succ_le (above text inOperand)
      · exact others text inOthers
    · exact fun text member => Nat.ne_of_gt (above text member)

theorem LinksAt.append (first : LinksAt rank ps links) (second : LinksAt rank qs more) :
    LinksAt rank (ps ++ qs) (links ++ more) := by
  induction first with
  | nil => exact second
  | cons isMark isRank operand _ ih =>
    rw [append_assoc, append_assoc]
    exact .cons isMark isRank operand ih

theorem LinksAt.end (linked : LinksAt rank ps links) : LinksAt rank (ps ++ []) links := by
  rwa [append_nil]

/-- Operands with operators of a rank between them. -/
theorem ReadsAt.join (isRank : rank < joins.length) (first : ReadsAt (rank + 1) ps value)
    (linked : LinksAt rank qs links) : ReadsAt rank (ps ++ qs) (joins[rank] value links) := by
  rcases first with ⟨above, rfl⟩
  rcases linked.divide with ⟨none, same, others⟩
  refine ⟨fun text member => ?_, ?_⟩
  · exact (mem_append.1 member).elim (fun inFirst => Nat.le_of_succ_le (above text inFirst))
      (others text)
  · rw [drop_eq_getElem_cons isRank, reading,
      divide_append fun text member => Nat.ne_of_gt (above text member), none, append_nil, same]

theorem ReadsAt.end (reads : ReadsAt rank ps value) : ReadsAt rank (ps ++ []) value := by
  rwa [append_nil]

theorem readsAt_operand {own : Sense} (same : own = value) : ReadsAt 5 [.operand own] value :=
  ⟨by simp, same⟩

/-! ## What is made of operands -/

variable {call}

theorem joined_eq (text : String) (a b : Sense) (ρ : Environment) :
    joined text a b ρ = (operatorOf? text).bind fun o => operation call o [a, b] ρ := by
  simp only [joined, infixes, operatorOf?, List.lookup_cons, List.lookup_nil]
  repeat' split
  all_goals dsimp only [operation, Option.bind]
  all_goals rcases a ρ with _ | (_ | _) <;> rcases b ρ with _ | (_ | _) <;> rfl

theorem sense_binary (w : Word) (left right : Expression) (l outer : Option Location) :
    sense call (binary (operatorOf? (textOf w)) w left right l outer) =
      joined (textOf w) (sense call left) (sense call right) :=
  funext fun _ => (joined_eq ..).symm

/-- The operators of a chain with what stands to their right. -/
def linksOf (call : String → List Sense → Sense)
    (tails : List (Word × Expression × Option Location)) : List (String × Sense) :=
  tails.map fun x => (textOf x.1, sense call x.2.1)

theorem sense_leftChain (first : Expression) (tails : List (Word × Expression × Option Location)) :
    sense call (leftChain first tails) = grouped (sense call first) (linksOf call tails) := by
  induction tails generalizing first with
  | nil => rfl
  | cons tail rest ih => rw [leftChain, ih, sense_binary]; rfl

theorem sense_conjunction (first : Expression) (links : List Expression) :
    sense call (conjunction first links) =
      (links.map (sense call)).foldl (joined "&&") (sense call first) := by
  induction links generalizing first with
  | nil => rfl
  | cons link rest ih => exact ih _

theorem map_sense_comparisonLinks (first : Expression)
    (tails : List (Word × Expression × Option Location)) :
    (comparisonLinks first tails).map (sense call) =
      adjacent (sense call first) (linksOf call tails) := by
  induction tails generalizing first with
  | nil => rfl
  | cons tail rest ih => rw [comparisonLinks, map_cons, sense_binary, ih]; rfl

theorem sense_comparisonChain (first : Expression)
    (tails : List (Word × Expression × Option Location)) :
    sense call (comparisonChain first tails) = chained (sense call first) (linksOf call tails) := by
  rw [comparisonChain, chained, ← map_sense_comparisonLinks]
  cases comparisonLinks first tails with
  | nil => rfl
  | cons link rest => exact sense_conjunction link rest

theorem joined_zero {sign : String} (isSign : rankOf sign = 3) {zero : Sense}
    (isZero : zero = fun _ => some (.int 0)) (a : Sense) : joined sign zero a = signed sign a := by
  funext ρ
  rw [isZero]
  unfold rankOf at isSign
  split at isSign <;> cases isSign
  all_goals
    show onIntegers _ _ (a ρ) = _
    rcases value : a ρ with _ | (_ | n) <;> simp [signed, value, onIntegers]

theorem sense_function (w : Word) (args : List Expression) (l : Option Location)
    (note : Annotation) :
    sense call (.function (functionOf? (textOf w)) args (some w) l note) =
      called call (textOf w) (senses call args) := by
  generalize textOf w = name
  simp only [functionOf?, List.lookup_cons, List.lookup_nil]
  repeat' split
  all_goals simp_all [called, sense, operation]

theorem wordOf_eq {t : LR.Tree} {word : String} (only : words t = [word]) : wordOf t = word := by
  rw [wordOf, only]
  rfl

theorem words_node (p : LR.Production) (children : List LR.Tree) (l : Option Location) :
    words (.node p children l) = children.flatMap words := by
  rw [words, LR.Tree.tokens]
  induction children with
  | nil => rfl
  | cons child rest ih => rw [LR.Tree.tokensOfAll, filter_append, map_append, ih]; rfl

end BinaryLayout.Language
