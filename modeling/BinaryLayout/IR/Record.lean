import BinaryLayout.IR.Schema

/-!
# Records

The representation as plain data: a record of some kind with a value for each field of the kind.
Records are what is written and read, compared and shown; the stages of the compiler work on the
typed representation.
-/

namespace BinaryLayout.IR

/-- The value of a field. -/
inductive Datum where
  | unset
  | text (s : String)
  | flag (b : Bool)
  | integer (n : Int)
  | location (l : Location)
  | operator (o : Operator)
  | unit (u : AddressableUnit)
  /-- A node of some kind with its fields in the order of the schema. -/
  | record (kind : Kind) (members : List (String × Datum))
  | list (elements : List Datum)

namespace Datum

def isSet : Datum → Bool
  | .unset => false
  | _ => true

/-- Whether a value is not set or an empty list. -/
def isVacant : Datum → Bool
  | .unset => true
  | .list [] => true
  | _ => false

def get (name : String) : Datum → Datum
  | .record _ members => (members.lookup name).getD .unset
  | _ => .unset

def elements : Datum → List Datum
  | .list elements => elements
  | _ => []

def number? : Datum → Option Int
  | .flag b => some (if b then 1 else 0)
  | .integer n => some n
  | .operator o => some o.number
  | .unit u => some u.bits
  | _ => none

mutual

/-- Whether two values are the same.  A truth value is the same as zero or one. -/
def same : Datum → Datum → Bool
  | .unset, .unset => true
  | .text a, .text b => a == b
  | .location a, .location b => a == b
  | .record k as, .record l bs => k == l && sameMembers as bs
  | .list as, .list bs => sameAll as bs
  | a, b =>
    match a.number?, b.number? with
    | some m, some n => m == n
    | _, _ => false

def sameAll : List Datum → List Datum → Bool
  | [], [] => true
  | a :: as, b :: bs => same a b && sameAll as bs
  | _, _ => false

def sameMembers : List (String × Datum) → List (String × Datum) → Bool
  | [], [] => true
  | (k, a) :: as, (l, b) :: bs => k == l && same a b && sameMembers as bs
  | _, _ => false

end

end Datum

end BinaryLayout.IR
