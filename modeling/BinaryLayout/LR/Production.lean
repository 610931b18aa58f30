import BinaryLayout.Failure
import BinaryLayout.Text.Blank

/-!
# Productions

A production says that a nonterminal symbol may be replaced by a sequence of symbols.  It is
written with an arrow, as in `sum -> sum plus term`.
-/

namespace BinaryLayout.LR

/-- A rule of a context-free grammar. -/
structure Production where
  /-- The nonterminal symbol that is replaced. -/
  lhs : String
  /-- The symbols that replace it. -/
  rhs : List String
deriving DecidableEq, Hashable

/-- Comparison of sequences of texts, the first difference deciding. -/
def orderTexts : List String → List String → Ordering
  | [], [] => .eq
  | [], _ :: _ => .lt
  | _ :: _, [] => .gt
  | a :: as, b :: bs => (compare a b).then (orderTexts as bs)

namespace Production

def text (p : Production) : String :=
  p.lhs ++ " -> " ++ String.intercalate " " p.rhs

/-- Read a production; symbols are separated by white space. -/
def ofText (s : String) : Checked Production :=
  match Text.words s with
  | lhs :: arrow :: rhs => if arrow = "->" then .ok ⟨lhs, rhs⟩ else .error .notARule
  | _ => .error .outOfRange

def order (p q : Production) : Ordering :=
  (compare p.lhs q.lhs).then (orderTexts p.rhs q.rhs)

def le (p q : Production) : Bool :=
  (p.order q).isLE

end Production

end BinaryLayout.LR
