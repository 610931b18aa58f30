import BinaryLayout.Json.Basic
import BinaryLayout.Text.Integer

/-!
# Printing JSON

JSON as text in ASCII, either on one line with a blank after commas and colons, or with every
element on a line of its own.
-/

namespace BinaryLayout.Json

def unitEscape (n : Nat) : String :=
  "\\u" ++ Text.hexadecimal 4 n

def escapeChar (c : Char) : String :=
  let n := c.toNat
  if c = '"' then "\\\""
  else if c = '\\' then "\\\\"
  else if c = '\n' then "\\n"
  else if c = '\r' then "\\r"
  else if c = '\t' then "\\t"
  else if n = 8 then "\\b"
  else if n = 12 then "\\f"
  else if 0x20 ≤ n ∧ n < 0x80 then String.singleton c
  else if n < 0x10000 then unitEscape n
  else
    unitEscape (0xd800 + (n - 0x10000) / 0x400) ++ unitEscape (0xdc00 + (n - 0x10000) % 0x400)

def quote (s : String) : String :=
  "\"" ++ s.toList.foldl (fun text c => text ++ escapeChar c) "" ++ "\""

mutual

def writeTo (text : String) : Json → String
  | .null => text ++ "null"
  | .bool value => text ++ (if value then "true" else "false")
  | .int value => text ++ Text.decimal value
  | .real written => text ++ written
  | .str value => text ++ quote value
  | .arr [] => text ++ "[]"
  | .arr (first :: rest) => writeElements (writeTo (text ++ "[") first) rest ++ "]"
  | .obj [] => text ++ "\x7b\x7d"
  | .obj ((name, value) :: rest) =>
    writeMembers (writeTo (text ++ "\x7b" ++ quote name ++ ": ") value) rest ++ "\x7d"

def writeElements (text : String) : List Json → String
  | [] => text
  | value :: rest => writeElements (writeTo (text ++ ", ") value) rest

def writeMembers (text : String) : List (String × Json) → String
  | [] => text
  | (name, value) :: rest =>
    writeMembers (writeTo (text ++ ", " ++ quote name ++ ": ") value) rest

end

/-- A value on one line. -/
def compact (j : Json) : String :=
  writeTo "" j

def newline (indent : Nat) : String :=
  "\n" ++ String.ofList (List.replicate indent ' ')

mutual

/-- A value with every element on its own line, appended to a text. -/
def layOutTo (step indent : Nat) (text : String) : Json → String
  | .arr (first :: rest) =>
    let inner := indent + step
    layOutElements step inner (layOutTo step inner (text ++ "[" ++ newline inner) first) rest ++
      newline indent ++ "]"
  | .obj ((name, value) :: rest) =>
    let inner := indent + step
    layOutMembers step inner
        (layOutTo step inner (text ++ "\x7b" ++ newline inner ++ quote name ++ ": ") value) rest ++
      newline indent ++ "\x7d"
  | .null => text ++ "null"
  | .bool value => text ++ (if value then "true" else "false")
  | .int value => text ++ Text.decimal value
  | .real written => text ++ written
  | .str value => text ++ quote value
  | .arr [] => text ++ "[]"
  | .obj [] => text ++ "\x7b\x7d"

def layOutElements (step indent : Nat) (text : String) : List Json → String
  | [] => text
  | value :: rest =>
    layOutElements step indent (layOutTo step indent (text ++ "," ++ newline indent) value) rest

def layOutMembers (step indent : Nat) (text : String) : List (String × Json) → String
  | [] => text
  | (name, value) :: rest =>
    layOutMembers step indent
      (layOutTo step indent (text ++ "," ++ newline indent ++ quote name ++ ": ") value) rest

end

/-- A value with every element on its own line, indented by `step` more than what holds it. -/
def laidOut (step : Nat) (j : Json) : String :=
  layOutTo step 0 "" j

end BinaryLayout.Json
