import BinaryLayout.Text.Blank

/-!
# Patterns of tokens

The forms that tokens take.  Each pattern measures how many characters of a line it matches: the
longest prefix of the line that has its form, or nothing.
-/

namespace BinaryLayout.Token

/-- A form of token. -/
structure Pattern where
  /-- The form as a regular expression, for descriptions of the language. -/
  regex : String
  /-- The terminal for tokens of this form; nothing for what is skipped. -/
  symbol : Option String
  /-- The length of the longest prefix that has this form. -/
  measure : List Char → Nat

/-- Words and signs that stand for themselves, in groups. -/
def literals : List String :=
  ["[", "]", "(", ")", ":", "=", "+", "-", "*", ".", "?", "==", "!=", "&&", "||", "<", ">", "<=",
    ">=", ",", "$static_size_in_bits", "$is_statically_sized", "$max", "$present", "$upper_bound",
    "$lower_bound", "$next", "$size_in_bits", "$size_in_bytes", "$max_size_in_bits",
    "$max_size_in_bytes", "$min_size_in_bits", "$min_size_in_bytes", "$default", "struct", "bits",
    "enum", "external", "import", "as", "if", "let"]

def isLower (c : Char) : Bool := 'a' ≤ c && c ≤ 'z'

def isUpper (c : Char) : Bool := 'A' ≤ c && c ≤ 'Z'

def isDigit (c : Char) : Bool := '0' ≤ c && c ≤ '9'

def isHex (c : Char) : Bool := isDigit c || ('a' ≤ c && c ≤ 'f') || ('A' ≤ c && c ≤ 'F')

def isBinary (c : Char) : Bool := c == '0' || c == '1'

/-- A character of a word in small letters. -/
def isSnake (c : Char) : Bool := isLower c || isDigit c || c == '_'

/-- A character of a word in capital letters. -/
def isShouty (c : Char) : Bool := isUpper c || isDigit c || c == '_'

/-- A character of a word with inner capitals. -/
def isCamel (c : Char) : Bool := isLower c || isUpper c || isDigit c

def isWord (c : Char) : Bool := isCamel c || c == '_' || c == '$'

def runLength (kind : Char → Bool) (s : List Char) : Nat :=
  (s.takeWhile kind).length

/-- A fixed beginning, then any number of characters of a kind. -/
def headed (head : String) (kind : Char → Bool) (s : List Char) : Nat :=
  if head.toList.isPrefixOf s then head.length + runLength kind (s.drop head.length) else 0

/-- A fixed beginning, then at least one character of a kind. -/
def headedSome (head : String) (kind : Char → Bool) (s : List Char) : Nat :=
  if head.toList.isPrefixOf s then
    match runLength kind (s.drop head.length) with
    | 0 => 0
    | n => head.length + n
  else 0

/-- Further groups of exactly `size` digits, each after an underscore. -/
def groupsLength (kind : Char → Bool) (size : Nat) (s : List Char) : Nat :=
  match s with
  | '_' :: rest =>
    if runLength kind (rest.take size) = size then
      size + 1 + groupsLength kind size (rest.drop size)
    else 0
  | _ => 0
termination_by s.length
decreasing_by simp only [List.length_drop, List.length_cons]; omega

/-- Up to `size` digits, then groups of exactly `size` digits. -/
def grouped (kind : Char → Bool) (size : Nat) (s : List Char) : Nat :=
  match runLength kind (s.take size) with
  | 0 => 0
  | n => n + groupsLength kind size (s.drop n)

/-- A fixed beginning and perhaps an underscore, then grouped digits. -/
def headedGroups (head : String) (kind : Char → Bool) (size : Nat) (s : List Char) : Nat :=
  if head.toList.isPrefixOf s then
    let rest := s.drop head.length
    let (mark, digits) := match rest with
      | '_' :: digits => (1, digits)
      | _ => (0, rest)
    match grouped kind size digits with
    | 0 => 0
    | n => head.length + mark + n
  else 0

def wordOf (start goesOn : Char → Bool) (s : List Char) : Nat :=
  match s with
  | c :: rest => if start c then 1 + runLength goesOn rest else 0
  | [] => 0

/-- A word that starts with a character of one kind, goes on with those of another, and has one of
a third kind after its start. -/
def wordWith (start goesOn needs : Char → Bool) (s : List Char) : Nat :=
  match s with
  | c :: rest =>
    if start c && (rest.takeWhile goesOn).any needs then 1 + runLength goesOn rest else 0
  | [] => 0

/-- The rest of a string after its opening quote, the closing quote included; nothing if the
string is not closed or has an unknown escape. -/
def stringRest : List Char → Option Nat
  | [] => none
  | '"' :: _ => some 1
  | '\\' :: c :: rest =>
    if c == 'n' || c == '\\' || c == '"' then (stringRest rest).map (· + 2) else none
  | c :: rest => if c == '\n' || c == '\\' then none else (stringRest rest).map (· + 1)

def stringLength : List Char → Nat
  | '"' :: rest =>
    match stringRest rest with
    | some n => n + 1
    | none => 0
  | _ => 0

def restOfLine (head : String) (s : List Char) : Nat :=
  if head.toList.isPrefixOf s then s.length else 0

def numberLike (s : List Char) : Nat :=
  match s with
  | c :: rest =>
    if isDigit c then
      match rest with
      | d :: tail =>
        if d == 'b' || d == 'x' || d == 'B' || d == 'X' then
          2 + runLength (fun c => isHex c || c == '_') tail
        else 1 + runLength (fun c => isHex c || c == '_') rest
      | [] => 1
    else 0
  | [] => 0

def literalLength (literal : String) (s : List Char) : Nat :=
  if literal.toList.isPrefixOf s then literal.length else 0

/-- All forms of tokens that are not literals.  Of two that match equally much the first counts;
the last two catch misspelt numbers and words whole. -/
def patterns : List Pattern :=
  [⟨"EmbossReserved[A-Za-z0-9]*", some "BadWord", headed "EmbossReserved" isCamel⟩,
    ⟨"emboss_reserved[_a-z0-9]*", some "BadWord", headed "emboss_reserved" isSnake⟩,
    ⟨"EMBOSS_RESERVED[_A-Z0-9]*", some "BadWord", headed "EMBOSS_RESERVED" isShouty⟩,
    ⟨"\"(?:[^\"\\n\\\\]|\\\\[n\\\\\"])*\"", some "String", stringLength⟩,
    ⟨"[0-9]+", some "Number", runLength isDigit⟩,
    ⟨"[0-9]\x7b1,3\x7d(?:_[0-9]\x7b3\x7d)*", some "Number", grouped isDigit 3⟩,
    ⟨"0x[0-9a-fA-F]+", some "Number", headedSome "0x" isHex⟩,
    ⟨"0x_?[0-9a-fA-F]\x7b1,4\x7d(?:_[0-9a-fA-F]\x7b4\x7d)*", some "Number",
      headedGroups "0x" isHex 4⟩,
    ⟨"0x_?[0-9a-fA-F]\x7b1,8\x7d(?:_[0-9a-fA-F]\x7b8\x7d)*", some "Number",
      headedGroups "0x" isHex 8⟩,
    ⟨"0b[01]+", some "Number", headedSome "0b" isBinary⟩,
    ⟨"0b_?[01]\x7b1,4\x7d(?:_[01]\x7b4\x7d)*", some "Number", headedGroups "0b" isBinary 4⟩,
    ⟨"0b_?[01]\x7b1,8\x7d(?:_[01]\x7b8\x7d)*", some "Number", headedGroups "0b" isBinary 8⟩,
    ⟨"true|false", some "BooleanConstant",
      fun s => literalLength "true" s + literalLength "false" s⟩,
    ⟨"[a-z][a-z_0-9]*", some "SnakeWord", wordOf isLower isSnake⟩,
    ⟨"[A-Z][A-Z_0-9]*[A-Z_][A-Z_0-9]*", some "ShoutyWord",
      wordWith isUpper isShouty (fun c => isUpper c || c == '_')⟩,
    ⟨"[A-Z][a-zA-Z0-9]*[a-z][a-zA-Z0-9]*", some "CamelWord", wordWith isUpper isCamel isLower⟩,
    ⟨"-- .*", some "Documentation", restOfLine "-- "⟩,
    ⟨"--$", some "Documentation", fun s => if s = ['-', '-'] then 2 else 0⟩,
    ⟨"--.*", some "BadDocumentation", restOfLine "--"⟩,
    ⟨"\\s+", none, runLength Text.isBlank⟩,
    ⟨"#.*", some "Comment", restOfLine "#"⟩,
    ⟨"[0-9][bxBX]?[0-9a-fA-F_]*", some "BadNumber", numberLike⟩,
    ⟨"[a-zA-Z_$0-9]+", some "BadWord", runLength isWord⟩]

/-- Every form of token: the literals, then the patterns. -/
def forms : List (Option String × (List Char → Nat)) :=
  literals.map (fun l => (some ("\"" ++ l ++ "\""), literalLength l)) ++
    patterns.map (fun p => (p.symbol, p.measure))

/-- The form that matches most of a text, the first one of several, with the length of its match;
nothing if no form matches. -/
def longestMatch (forms : List (Option String × (List Char → Nat))) (s : List Char) :
    Option String × Nat :=
  forms.foldl
    (fun best form =>
      let n := form.2 s
      if best.2 < n then (form.1, n) else best)
    (none, 0)

end BinaryLayout.Token
