import BinaryLayout.IR.Serial

/-!
# Functions that remember

A memo holds the answers that a function gave.  A call with arguments that were seen before gives
the remembered answer and does not reach the function.  Numbers and truth values with one value
are one argument, and lists and objects cannot be arguments.
-/

namespace BinaryLayout

/-- The answers that a function gave, in the order of the calls that reached it. -/
structure Memo (α : Type) where
  entries : List (List Json × α) := []

namespace Memo

def wholeNumber? (written : String) : Option Int :=
  match Text.splitOn "." written with
  | [whole, fraction] => if fraction.toList.all (· == '0') then Text.readInteger whole else none
  | _ => none

def argumentNumber? : Json → Option Int
  | .real written => wholeNumber? written
  | j => j.number?

def sameArgument (a b : Json) : Bool :=
  match argumentNumber? a, argumentNumber? b with
  | some m, some n => m == n
  | none, none => a == b
  | _, _ => false

def sameArguments : List Json → List Json → Bool
  | [], [] => true
  | a :: as, b :: bs => sameArgument a b && sameArguments as bs
  | _, _ => false

def isArgument : Json → Bool
  | .arr _ | .obj _ => false
  | _ => true

def find? {α : Type} (memo : Memo α) (arguments : List Json) : Option α :=
  (memo.entries.find? fun entry => sameArguments entry.1 arguments).map (·.2)

def call {α : Type} (f : Memo α → List Json → α) (memo : Memo α) (arguments : List Json) :
    Checked (Memo α × α) :=
  if !arguments.all isArgument then .error .invariant
  else
    match memo.find? arguments with
    | some answer => .ok (memo, answer)
    | none =>
      let answer := f memo arguments
      .ok (⟨memo.entries ++ [(arguments, answer)]⟩, answer)

def countCalls (memo : Memo Nat) : List (List Json) → Memo Nat × List (Checked Nat)
  | [] => (memo, [])
  | arguments :: rest =>
    match memo.call (fun memo _ => memo.entries.length + 1) arguments with
    | .ok (memo, answer) =>
      let (memo, answers) := memo.countCalls rest
      (memo, .ok answer :: answers)
    | .error f =>
      let (memo, answers) := memo.countCalls rest
      (memo, .error f :: answers)

end Memo

end BinaryLayout
