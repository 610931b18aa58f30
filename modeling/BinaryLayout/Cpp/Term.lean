import BinaryLayout.Failure
import BinaryLayout.Text.Integer

/-!
# Terms with shared parts

An expression is written as text in which some parts can be names of local variables.  A `Store`
keeps what the variables are set to: an expression that has been met before is not written again,
its variable is used.
-/

namespace BinaryLayout.Cpp

inductive Piece where
  | text (s : String)
  /-- The local variable for the definition with an index. -/
  | binding (index : Nat)
deriving DecidableEq

/-- An expression of generated code. -/
abbrev Term := List Piece

def variableName (index : Nat) : String :=
  "emboss_reserved_local_subexpr_" ++ Text.decimal (index + 1)

def Piece.shown : Piece → String
  | .text s => s
  | .binding index => variableName index

def Term.text (t : Term) : String :=
  String.join (t.map Piece.shown)

/-- The definitions of local variables, in order. -/
structure Store where
  definitions : List Term := []

namespace Store

def add (s : Store) (t : Term) : Store × Term :=
  match s.definitions.idxOf? t with
  | some index => (s, [.binding index])
  | none => (⟨s.definitions ++ [t]⟩, [.binding s.definitions.length])

def lines (s : Store) (indent : String) (first : Nat) : String :=
  String.join (((s.definitions.zipIdx).drop first).map fun (t, index) =>
    indent ++ "const auto " ++ variableName index ++ " = " ++ t.text ++ ";\n")

end Store

/-- The making of terms: with a store, parts go to local variables. -/
abbrev RenderM := StateT (Option Store) (Except Failure)

def share (t : Term) : RenderM Term := do
  match ← get with
  | none => return t
  | some store =>
    let (store, t) := store.add t
    set (some store)
    return t

/-- Make terms without local variables. -/
def RenderM.inline {α : Type} (m : RenderM α) : Checked α := do
  return (← m.run none).1

/-- Make terms, with the local variables for their parts. -/
def RenderM.shared {α : Type} (m : RenderM α) : Checked (α × Store) := do
  let (a, store) ← m.run (some {})
  return (a, store.getD {})

end BinaryLayout.Cpp
