import BinaryLayout.Text.CaseTable

/-!
# Upper, title and lower case

Case mappings of whole texts.  A character may become several; a capital sigma becomes the final
form if it ends a word, that is if a letter stands before it and none after it.
-/

namespace BinaryLayout.Text

def mapByBlocks (blocks : List (Nat × Nat × Int)) (n : Nat) : Option Nat :=
  (blocks.find? fun (first, length, _) => first ≤ n && n < first + length).map
    fun (_, _, distance) => ((n : Int) + distance).toNat

/-- Whether a character is the small letter of a pair in a row. -/
def isPaired (n : Nat) : Bool :=
  pairRanges.any fun (first, last) => first ≤ n && n ≤ last && (n - first) % 2 == 0

def upperCode? (n : Nat) : Option Nat :=
  if isPaired n then some (n - 1) else mapByBlocks upperBlocks n

def lowerCode? (n : Nat) : Option Nat :=
  let back : List (Nat × Nat × Int) := upperBlocks.map fun (first, length, distance) =>
    (((first : Int) + distance).toNat, length, -distance)
  (mapByBlocks lowerBlocks n).or (if isPaired (n + 1) then some (n + 1) else mapByBlocks back n)

def upperOf (c : Char) : List Char :=
  if c.toNat < 0x80 then [c.toUpper]
  else
    match upperSequences.lookup c.toNat, mapByBlocks iotaBlocks c.toNat with
    | some codes, _ => codes.map Char.ofNat
    | none, some code => [Char.ofNat code, 'Ι']
    | none, none => [(upperCode? c.toNat).elim c Char.ofNat]

def titleOf (c : Char) : List Char :=
  match titleSequences.lookup c.toNat, mapByBlocks titleBlocks c.toNat with
  | some codes, _ => codes.map Char.ofNat
  | none, some code => [Char.ofNat code]
  | none, none => upperOf c

/-- The lower case of a character, wherever it stands. -/
def lowerOf (c : Char) : List Char :=
  if c.toNat < 0x80 then [c.toLower]
  else if c = 'İ' then ['i', '\u0307']
  else [(lowerCode? c.toNat).elim c Char.ofNat]

/-- The next character that is not passed over has case. -/
def meetsCased : List Char → Bool
  | [] => false
  | c :: rest =>
    if inRanges caseIgnorableRanges c.toNat then meetsCased rest
    else inRanges casedRanges c.toNat

def lowerFrom (before : List Char) : List Char → List Char
  | [] => []
  | c :: rest =>
    let lowered :=
      if c = 'Σ' then (if meetsCased before && !meetsCased rest then ['ς'] else ['σ'])
      else lowerOf c
    lowered ++ lowerFrom (c :: before) rest

def upper (s : String) : String :=
  String.ofList (s.toList.flatMap upperOf)

/-- A text with its first character in title case and the others in lower case. -/
def capitalize (s : String) : String :=
  match s.toList with
  | [] => ""
  | c :: rest => String.ofList (titleOf c ++ lowerFrom [c] rest)

end BinaryLayout.Text
