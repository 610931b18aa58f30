/-!
# Ranges of numbers

Classes of characters are given as ranges of code points.  The tables of such classes hold the
lengths of the runs outside and inside the class, in turn.
-/

namespace BinaryLayout.Text

/-- The ranges that run lengths describe, from a number on: how many numbers are passed over, how
many belong to the next range, and so on. -/
def rangesFrom (start : Nat) : List Nat → List (Nat × Nat)
  | gap :: length :: rest =>
    (start + gap, start + gap + length - 1) :: rangesFrom (start + gap + length) rest
  | _ => []

def inRanges (ranges : List (Nat × Nat)) (n : Nat) : Bool :=
  ranges.any fun (first, last) => first ≤ n && n ≤ last

end BinaryLayout.Text
