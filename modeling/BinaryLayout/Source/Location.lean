import BinaryLayout.Failure
import BinaryLayout.Text.Integer
import BinaryLayout.Text.Lines

/-!
# Positions and locations in a source text

A position is a line and a column, counted from one in characters; `0:0` stands for a position
that is not known.  A location is the span between two positions with two marks: `^` if it may
lie outside the location of the node around it, and `*` if what it belongs to was made by the
compiler and not written by anyone.
-/

namespace BinaryLayout

/-- A place between two characters of a source text. -/
structure Position where
  /-- The line, counted from one; zero if the position is not known. -/
  line : Nat := 0
  /-- The column, counted from one in characters; zero if the position is not known. -/
  column : Nat := 0
deriving DecidableEq

namespace Position

def isKnown (p : Position) : Bool :=
  p.line != 0

def IsValid (p : Position) : Prop :=
  p.line = 0 ↔ p.column = 0

instance (p : Position) : Decidable p.IsValid :=
  inferInstanceAs (Decidable (p.line = 0 ↔ p.column = 0))

def le (p q : Position) : Bool :=
  p.line < q.line || (p.line == q.line && p.column ≤ q.column)

def order (p q : Position) : Ordering :=
  (compare p.line q.line).then (compare p.column q.column)

/-- A position as `line:column`. -/
def text (p : Position) : String :=
  Text.decimal p.line ++ ":" ++ Text.decimal p.column

/-- Read a position written as `line:column`. -/
def ofText? (s : String) : Option Position :=
  match Text.splitOn ":" s with
  | [lineText, columnText] =>
    match Text.readInteger lineText, Text.readInteger columnText with
    | some (.ofNat line), some (.ofNat column) =>
      let p : Position := ⟨line, column⟩
      if p.IsValid then some p else none
    | _, _ => none
  | _ => none

end Position

/-- A span of a source text. -/
structure Location where
  start : Position := ⟨0, 0⟩
  /-- One character past the end of the span. -/
  stop : Position := ⟨0, 0⟩
  /-- The span may lie outside that of the node around it. -/
  isDisjoint : Bool := false
  /-- The span belongs to something that the compiler made. -/
  isSynthetic : Bool := false
deriving DecidableEq

namespace Location

def unknown : Location := ⟨⟨0, 0⟩, ⟨0, 0⟩, false, false⟩

def isKnown (l : Location) : Bool :=
  l.start.isKnown

def IsValid (l : Location) : Prop :=
  l.start.le l.stop ∧ (l.start.isKnown = l.stop.isKnown)

instance (l : Location) : Decidable l.IsValid :=
  inferInstanceAs (Decidable (_ ∧ _))

def onLine (line first last : Nat) : Location :=
  ⟨⟨line, first⟩, ⟨line, last⟩, false, false⟩

/-- The same span, marked as made by the compiler. -/
def synthetic (l : Location) : Location :=
  { l with isSynthetic := true }

/-- The same span, marked as lying outside its parent. -/
def disjoint (l : Location) : Location :=
  { l with isDisjoint := true }

def order (l m : Location) : Ordering :=
  (l.start.order m.start).then ((l.stop.order m.stop).then
    ((compare l.isDisjoint m.isDisjoint).then (compare l.isSynthetic m.isSynthetic)))

/-- A location as `line:column-line:column` and its marks. -/
def text (l : Location) : String :=
  l.start.text ++ "-" ++ l.stop.text ++ (if l.isDisjoint then "^" else "") ++
    (if l.isSynthetic then "*" else "")

def takeMark (mark : Char) (s : List Char) : List Char × Bool :=
  match s.getLast? with
  | some c => if c = mark then (s.dropLast, true) else (s, false)
  | none => (s, false)

def ofText? (s : String) : Option Location :=
  let (rest, isSynthetic) := takeMark '*' s.toList
  let (span, isDisjoint) := takeMark '^' rest
  match Text.splitOn "-" (String.ofList span) with
  | [startText, stopText] =>
    match Position.ofText? startText, Position.ofText? stopText with
    | some start, some stop =>
      let l : Location := ⟨start, stop, isDisjoint, isSynthetic⟩
      if l.IsValid then some l else none
    | _, _ => none
  | _ => none

def ofText (s : String) : Checked Location :=
  match ofText? s with
  | some l => .ok l
  | none => .error .malformed

def merge (locations : List (Option Location)) : Checked (Option Location) :=
  let known := locations.filterMap fun l? => l?.filter isKnown
  match known.head?, known.getLast? with
  | some first, some last =>
    let l : Location :=
      ⟨first.start, last.stop, known.any (·.isDisjoint), known.any (·.isSynthetic)⟩
    if l.IsValid then .ok (some l) else .error .invariant
  | _, _ => .ok none

end Location

end BinaryLayout
