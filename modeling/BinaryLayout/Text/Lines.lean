import BinaryLayout.Text.Blank

/-!
# Lines

A text is cut at every line boundary.  `CR LF` is one boundary, a boundary at the very end opens
no further line, and the boundary itself belongs to no line.
-/

namespace BinaryLayout.Text

def isLineEnd (c : Char) : Bool :=
  let n := c.toNat
  (10 ≤ n && n ≤ 13) || (28 ≤ n && n ≤ 30) || n == 0x85 || n == 0x2028 || n == 0x2029

/-- The lines of a text whose current line has begun with `current`, reversed. -/
def linesFrom (current : List Char) : List Char → List (List Char)
  | [] => if current.isEmpty then [] else [current.reverse]
  | '\r' :: '\n' :: rest => current.reverse :: linesFrom [] rest
  | c :: rest =>
    if isLineEnd c then current.reverse :: linesFrom [] rest else linesFrom (c :: current) rest

def lines (s : String) : List String :=
  (linesFrom [] s.toList).map String.ofList

def linesWithEndsFrom (current : List Char) : List Char → List (List Char)
  | [] => if current.isEmpty then [] else [current.reverse]
  | '\r' :: '\n' :: rest => ('\n' :: '\r' :: current).reverse :: linesWithEndsFrom [] rest
  | c :: rest =>
    if isLineEnd c then (c :: current).reverse :: linesWithEndsFrom [] rest
    else linesWithEndsFrom (c :: current) rest

def linesWithEnds (s : List Char) : List (List Char) :=
  linesWithEndsFrom [] s

def joinLines (lines : List String) : String :=
  String.intercalate "\n" lines

def splitFrom (separator : List Char) (piece : List Char) : List Char → Nat → List (List Char)
  | [], _ => [piece.reverse]
  | _ :: rest, skip + 1 => splitFrom separator piece rest skip
  | c :: rest, 0 =>
    if separator.isPrefixOf (c :: rest) then
      piece.reverse :: splitFrom separator [] rest (separator.length - 1)
    else
      splitFrom separator (c :: piece) rest 0

/-- The pieces of a text between the occurrences of a separator, found from left to right. -/
def splitOn (separator s : String) : List String :=
  (splitFrom separator.toList [] s.toList 0).map String.ofList

/-- The text before the first occurrence of a character, and the text after it if there is one. -/
def cutAt (c : Char) (s : List Char) : List Char × List Char :=
  (s.takeWhile (· != c), (s.dropWhile (· != c)).drop 1)

/-- A text with every occurrence of `target` replaced. -/
def replaceAll (target replacement s : String) : String :=
  String.intercalate replacement (splitOn target s)

def padRight (width : Int) (s : String) : String :=
  s ++ String.ofList (List.replicate (width - s.length).toNat ' ')

/-- `CR LF` and lone `CR` become `LF`, as in a text read from a file. -/
def universalNewlines : List Char → List Char
  | [] => []
  | '\r' :: '\n' :: rest => '\n' :: universalNewlines rest
  | c :: rest => (if c = '\r' then '\n' else c) :: universalNewlines rest

end BinaryLayout.Text
