import BinaryLayout.Json.Basic
import BinaryLayout.Text.Integer

/-!
# Reading JSON

A reader for JSON texts.  White space is that of JSON; strings hold no control characters; a
later member of an object replaces an earlier one of the same name.
-/

namespace BinaryLayout.Json

def isSpace (c : Char) : Bool :=
  c == ' ' || c == '\n' || c == '\r' || c == '\t'

def skipSpace (s : List Char) : List Char :=
  s.dropWhile isSpace

/-- The number written with four hexadecimal digits. -/
def hexQuad? (a b c d : Char) : Option Nat := do
  let a ← Text.hexValue? a
  let b ← Text.hexValue? b
  let c ← Text.hexValue? c
  let d ← Text.hexValue? d
  return ((a * 16 + b) * 16 + c) * 16 + d

/-- The character that a letter stands for after a backslash. -/
def unescape? (c : Char) : Option Char :=
  match c with
  | '"' => some '"'
  | '\\' => some '\\'
  | '/' => some '/'
  | 'b' => some (Char.ofNat 8)
  | 'f' => some (Char.ofNat 12)
  | 'n' => some '\n'
  | 'r' => some '\r'
  | 't' => some '\t'
  | _ => none

/-- A character outside the basic plane from its two halves. -/
def joinSurrogates (high low : Nat) : Char :=
  Char.ofNat (0x10000 + (high - 0xd800) * 0x400 + (low - 0xdc00))

/-- The character of one escaped unit; half of a pair stands for no character of its own. -/
def ofUnit (n : Nat) : Char :=
  if 0xd800 ≤ n ∧ n < 0xe000 then Char.ofNat 0xfffd else Char.ofNat n

def readString (read : List Char) : List Char → Option (List Char × List Char)
  | [] => none
  | '"' :: rest => some (read.reverse, rest)
  | '\\' :: 'u' :: a :: b :: c :: d :: '\\' :: 'u' :: e :: f :: g :: h :: rest =>
    match hexQuad? a b c d, hexQuad? e f g h with
    | some high, some low =>
      if 0xd800 ≤ high ∧ high < 0xdc00 ∧ 0xdc00 ≤ low ∧ low < 0xe000 then
        readString (joinSurrogates high low :: read) rest
      else
        readString (ofUnit high :: read) ('\\' :: 'u' :: e :: f :: g :: h :: rest)
    | _, _ => none
  | '\\' :: 'u' :: a :: b :: c :: d :: rest =>
    match hexQuad? a b c d with
    | some n => readString (ofUnit n :: read) rest
    | none => none
  | '\\' :: c :: rest =>
    match unescape? c with
    | some character => readString (character :: read) rest
    | none => none
  | c :: rest => if c.toNat < 0x20 then none else readString (c :: read) rest

/-- A number: digits, and perhaps a fraction and an exponent. -/
def readNumber (s : List Char) : Option (Json × List Char) :=
  let (sign, unsigned) := match s with
    | '-' :: rest => (['-'], rest)
    | _ => ([], s)
  let digits := unsigned.takeWhile Char.isDigit
  let afterDigits := unsigned.dropWhile Char.isDigit
  let whole? := match digits with
    | [] => false
    | ['0'] => true
    | d :: _ => d != '0'
  if !whole? then none
  else
    let (fraction, afterFraction) := match afterDigits with
      | '.' :: rest =>
        match rest.takeWhile Char.isDigit with
        | [] => ([], afterDigits)
        | ds => ('.' :: ds, rest.dropWhile Char.isDigit)
      | _ => ([], afterDigits)
    let exponentDigits (mark : List Char) (rest : List Char) : List Char × List Char :=
      match rest.takeWhile Char.isDigit with
      | [] => ([], afterFraction)
      | ds => (mark ++ ds, rest.dropWhile Char.isDigit)
    let (exponent, rest) := match afterFraction with
      | 'e' :: '+' :: rest => exponentDigits ['e', '+'] rest
      | 'e' :: '-' :: rest => exponentDigits ['e', '-'] rest
      | 'E' :: '+' :: rest => exponentDigits ['e', '+'] rest
      | 'E' :: '-' :: rest => exponentDigits ['e', '-'] rest
      | 'e' :: rest => exponentDigits ['e'] rest
      | 'E' :: rest => exponentDigits ['e'] rest
      | _ => ([], afterFraction)
    if fraction.isEmpty && exponent.isEmpty then
      let value : Int := Text.digitsValue 10 0 digits
      some (.int (if sign.isEmpty then value else -value), rest)
    else
      some (.real (String.ofList (sign ++ digits ++ fraction ++ exponent)), rest)

mutual

def readValue : Nat → List Char → Option (Json × List Char)
  | 0, _ => none
  | fuel + 1, s =>
    match s with
    | 'n' :: 'u' :: 'l' :: 'l' :: rest => some (.null, rest)
    | 't' :: 'r' :: 'u' :: 'e' :: rest => some (.bool true, rest)
    | 'f' :: 'a' :: 'l' :: 's' :: 'e' :: rest => some (.bool false, rest)
    | '"' :: rest => (readString [] rest).map fun (cs, rest) => (.str (String.ofList cs), rest)
    | '[' :: rest =>
      match skipSpace rest with
      | ']' :: rest => some (.arr [], rest)
      | rest => readElements fuel [] rest
    | '\x7b' :: rest =>
      match skipSpace rest with
      | '\x7d' :: rest => some (.obj [], rest)
      | rest => readMembers fuel [] rest
    | _ => readNumber s

def readElements : Nat → List Json → List Char → Option (Json × List Char)
  | 0, _, _ => none
  | fuel + 1, read, s =>
    match readValue fuel s with
    | none => none
    | some (value, rest) =>
      match skipSpace rest with
      | ',' :: rest => readElements fuel (value :: read) (skipSpace rest)
      | ']' :: rest => some (.arr (value :: read).reverse, rest)
      | _ => none

def readMembers : Nat → List (String × Json) → List Char → Option (Json × List Char)
  | 0, _, _ => none
  | fuel + 1, read, s =>
    match s with
    | '"' :: rest =>
      match readString [] rest with
      | none => none
      | some (name, rest) =>
        match skipSpace rest with
        | ':' :: rest =>
          match readValue fuel (skipSpace rest) with
          | none => none
          | some (value, rest) =>
            let read := (String.ofList name, value) :: read
            match skipSpace rest with
            | ',' :: rest => readMembers fuel read (skipSpace rest)
            | '\x7d' :: rest => some (.obj read.reverse, rest)
            | _ => none
        | _ => none
    | _ => none

end

/-- The value that a text denotes.  Every call consumes a character, so the length of the text
bounds their number. -/
def parse? (s : String) : Option Json :=
  let characters := s.toList
  match readValue (2 * characters.length + 2) (skipSpace characters) with
  | some (value, rest) => if (skipSpace rest).isEmpty then some value else none
  | none => none

end BinaryLayout.Json
