/-!
# White space

The characters that separate words and make up the indentation of a line.  They are those with
the Unicode property `White_Space`, and the four information separators `U+001C` to `U+001F`.
-/

namespace BinaryLayout.Text

def isBlank (c : Char) : Bool :=
  let n := c.toNat
  (9 ≤ n && n ≤ 13) || (28 ≤ n && n ≤ 32) || n == 0x85 || n == 0xa0 || n == 0x1680 ||
    (0x2000 ≤ n && n ≤ 0x200a) || n == 0x2028 || n == 0x2029 || n == 0x202f || n == 0x205f ||
    n == 0x3000

def trimLeft (s : List Char) : List Char :=
  s.dropWhile isBlank

def trimRight (s : List Char) : List Char :=
  (s.reverse.dropWhile isBlank).reverse

def trim (s : List Char) : List Char :=
  trimRight (trimLeft s)

def stripped (s : String) : String :=
  String.ofList (trim s.toList)

/-- The maximal runs of characters that are not white space, given the run read so far. -/
def wordsFrom (current : List Char) : List Char → List (List Char)
  | [] => if current.isEmpty then [] else [current.reverse]
  | c :: rest =>
    if isBlank c then
      if current.isEmpty then wordsFrom [] rest else current.reverse :: wordsFrom [] rest
    else
      wordsFrom (c :: current) rest

/-- The words of a text: its maximal runs of characters that are not white space. -/
def words (s : String) : List String :=
  (wordsFrom [] s.toList).map String.ofList

end BinaryLayout.Text
