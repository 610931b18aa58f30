import BinaryLayout.Failure
import BinaryLayout.LR.Tree

/-!
# Transforming parse trees

What becomes of a tree is found from the bottom up, with a handler for tokens and one for each
production.  Nothing here calls itself for a child, so that a tree may be of any depth.  Nodes wait
on a stack, and each comes to its top twice: at first its children are put above it, and then,
with all of them handled, it is handled itself.
-/

namespace BinaryLayout.LR

variable {m : Type → Type} {α : Type}

/-- What becomes of tokens and nodes.  The handler of a production gets the node, and what has
become of the children of the node. -/
structure Handlers (m : Type → Type) (α : Type) where
  token : Token → m α
  production : Production → Tree → List α → m α

def Handlers.handle (h : Handlers m α) : Tree → List α → m α
  | .leaf token, _ => h.token token
  | .node p children location, results => h.production p (.node p children location) results

namespace Tree

def children : Tree → List Tree
  | .leaf _ => []
  | .node _ children _ => children

def noteRule (used : List Production) : Tree → List Production
  | .leaf _ => used
  | .node p _ _ => used.insert p

/-- A node on the stack.  The lists of results are numbered. -/
structure Pending where
  node : Tree
  /-- The list that gets what becomes of the node; nothing gets what becomes of the whole tree. -/
  parent : Option Nat
  /-- The list of what has become of the children, once these have been put on the stack. -/
  results : Option Nat

/-- What a stack still asks for. -/
noncomputable def work : List Pending → Nat
  | [] => 0
  | x :: below => (if x.results.isSome then 1 else sizeOf x.node) + work below

theorem work_append (above below : List Pending) :
    work (above ++ below) = work above + work below := by
  induction above with
  | nil => simp [work]
  | cons x above ih =>
    rw [List.cons_append, work, work, ih]
    omega

theorem work_children_lt (tree : Tree) (own : Nat) :
    work (tree.children.map (⟨·, some own, none⟩)).reverse + 1 < sizeOf tree := by
  cases tree with
  | leaf token =>
    cases token
    simp +arith [children, work]
  | node p trees =>
    have smaller : work (trees.map (⟨·, some own, none⟩)).reverse < sizeOf trees := by
      induction trees with
      | nil => simp [work]
      | cons first rest ih =>
        simp only [List.map_cons, List.reverse_cons, work_append, List.cons.sizeOf_spec]
        simp [work]
        omega
    simp only [children, node.sizeOf_spec]
    omega

/-- Work through a stack, whose top is in front.  What becomes of a node is put in front of what
has become of the siblings to its right. -/
def transformFrom [Monad m] [MonadExceptOf Failure m] (h : Handlers m α) (used : List Production)
    (lists : Array (List α)) : List Pending → m (α × List Production)
  | [] => throw .outOfRange
  | ⟨tree, parent, none⟩ :: below =>
    let own := lists.size
    transformFrom h (tree.noteRule used) (lists.push [])
      ((tree.children.map (⟨·, some own, none⟩)).reverse ++ ⟨tree, parent, some own⟩ :: below)
  | ⟨tree, parent, some own⟩ :: below => do
    let result ← h.handle tree (lists[own]?.getD [])
    match parent with
    | none => return (result, used)
    | some list => transformFrom h used (lists.modify list (result :: ·)) below
termination_by stack => work stack
decreasing_by
  · have smaller := work_children_lt tree lists.size
    simp [work_append, work]
    omega
  · simp [work]

/-- What becomes of a tree, and the productions in it together with those noted before. -/
def transform [Monad m] [MonadExceptOf Failure m] (h : Handlers m α) (used : List Production)
    (tree : Tree) : m (α × List Production) :=
  transformFrom h used #[] [⟨tree, none, none⟩]

end Tree

end BinaryLayout.LR
