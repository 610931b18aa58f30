import BinaryLayout.Text.Integer
import BinaryLayout.Text.Lines

/-!
# Options

The arguments of a command are switches and operands.  A switch is named in full or by a beginning
that no other switch has, and its value follows as the next argument or after `=`; a switch of one
letter may have its value attached.  After `--` all arguments are operands.  The operands have to
stand together.
-/

namespace BinaryLayout.CommandLine

/-- The values that a switch takes. -/
inductive ValueRule where
  | any
  | oneOf (choices : List String)
  | integer

def ValueRule.admits : ValueRule → String → Bool
  | .any, _ => true
  | .oneOf choices, value => choices.contains value
  | .integer, value => (Text.readInteger value).isSome

structure Switch where
  names : List String
  /-- The values that it takes, if it takes one. -/
  value : Option ValueRule := none
  /-- What stands for the value in the description of the command. -/
  label : String := ""
  help : String

def helpSwitch : Switch :=
  { names := ["-h", "--help"], help := "show this help message and exit" }

/-- How many operands a command takes. -/
inductive OperandRule where
  | none
  | one
  | several
deriving DecidableEq

/-- What a command can be called with. -/
structure Usage where
  description : String
  switches : List Switch
  operands : OperandRule := .none
  operandHelp : String := ""

/-- A switch that was given: its first name, the name that was meant, and its value. -/
structure Setting where
  switch : String
  name : String
  value : String := ""

/-- What a command was called with. -/
structure Arguments where
  settings : List Setting := []
  operands : List String := []

namespace Arguments

def has (a : Arguments) (switch : String) : Bool :=
  a.settings.any (·.switch == switch)

def values (a : Arguments) (switch : String) : List String :=
  (a.settings.filter (·.switch == switch)).map (·.value)

def value? (a : Arguments) (switch : String) : Option String :=
  (a.values switch).getLast?

def lastName? (a : Arguments) (switch : String) : Option String :=
  ((a.settings.filter (·.switch == switch)).map (·.name)).getLast?

end Arguments

inductive Argument where
  | operand (text : String)
  /-- All further arguments are operands. -/
  | separator
  /-- A switch, the name that was meant, and the value attached to it. -/
  | switch (s : Switch) (name : String) (attached : Option String)
  | unknown

/-- What the arguments of a command come to. -/
inductive Parsed where
  | run (arguments : Arguments)
  | help
  | rejected

namespace Usage

def allSwitches (u : Usage) : List Switch :=
  helpSwitch :: u.switches

def switch? (u : Usage) (name : String) : Option Switch :=
  u.allSwitches.find? (·.names.contains name)

/-- The switches that an argument may mean by the beginning of their name, or, if they are
letters, with a value attached. -/
def candidates (u : Usage) (argument : String) : List Argument :=
  let named := u.allSwitches.flatMap fun s => s.names.map (s, ·)
  if argument.startsWith "--" then
    let (head, value) := Text.cutAt '=' argument.toList
    let attached := if argument.toList.contains '=' then some (String.ofList value) else none
    named.filterMap fun (s, name) =>
      if head.isPrefixOf name.toList then some (.switch s name attached) else none
  else
    let letter := argument.toList.take 2
    named.filterMap fun (s, name) =>
      if name.toList == letter then
        some (.switch s name (some (String.ofList (argument.toList.drop 2))))
      else if name.startsWith argument then some (.switch s name none)
      else none

def isNegativeNumber (argument : String) : Bool :=
  match argument.toList with
  | '-' :: rest =>
    let isDigit (c : Char) : Bool := (Text.digitValue? c).isSome
    let (whole, fraction) := Text.cutAt '.' rest
    if rest.contains '.' then whole.all isDigit && !fraction.isEmpty && fraction.all isDigit
    else !whole.isEmpty && whole.all isDigit
  | _ => false

/-- The form of an argument, unless its beginning fits more than one switch. -/
def classify (u : Usage) (argument : String) : Option Argument :=
  if !argument.startsWith "-" || argument == "-" then some (.operand argument)
  else
    match u.switch? argument with
    | some s => some (.switch s argument none)
    | none =>
      let (head, value) := Text.cutAt '=' argument.toList
      match argument.toList.contains '=', u.switch? (String.ofList head) with
      | true, some s => some (.switch s (String.ofList head) (some (String.ofList value)))
      | _, _ =>
        match u.candidates argument with
        | [only] => some only
        | _ :: _ :: _ => none
        | [] =>
          if isNegativeNumber argument || argument.toList.contains ' ' then
            some (.operand argument)
          else some .unknown

/-- The forms of all arguments, unless the beginning of one fits more than one switch. -/
def classifyAll (u : Usage) : List String → Option (List Argument)
  | [] => some []
  | "--" :: rest => some (.separator :: rest.map .operand)
  | argument :: rest => do
    let first ← u.classify argument
    return first :: (← u.classifyAll rest)

end Usage

/-- How far the operands have been taken. -/
inductive Progress where
  | before
  /-- The last argument was one of the operands. -/
  | taking
  | after
deriving DecidableEq

/-- Arguments that have been taken so far. -/
structure Taken where
  arguments : Arguments := {}
  progress : Progress := .before
  /-- Some argument could not be taken. -/
  surplus : Bool := false

namespace Taken

def set (t : Taken) (s : Switch) (name value : String) : Taken :=
  let setting : Setting := ⟨s.names.headD "", name, value⟩
  { t with
    arguments := { t.arguments with settings := t.arguments.settings ++ [setting] }
    progress := if t.progress == .taking then .after else t.progress }

def add (t : Taken) (rule : OperandRule) (operand : String) : Taken :=
  let taken := { t with
    arguments := { t.arguments with operands := t.arguments.operands ++ [operand] }
    progress := .taking }
  match rule, t.progress with
  | .one, .before => taken
  | .several, .before | .several, .taking => taken
  | _, _ => { t with surplus := true }

end Taken

namespace Usage

def take (u : Usage) (t : Taken) : List Argument → Parsed
  | [] =>
    if t.surplus || (u.operands != .none && t.arguments.operands.isEmpty) then .rejected
    else .run t.arguments
  | .operand text :: rest => u.take (t.add u.operands text) rest
  | .separator :: rest =>
    u.take { t with surplus := t.surplus || u.operands == .none || t.progress == .after } rest
  | .unknown :: rest =>
    u.take { t with
      surplus := true
      progress := if t.progress == .taking then .after else t.progress } rest
  | .switch s name attached :: rest =>
    match s.value, attached with
    | none, none => if s.names == helpSwitch.names then .help else u.take (t.set s name "") rest
    | none, some _ => .rejected
    | some rule, some value =>
      if rule.admits value then u.take (t.set s name value) rest else .rejected
    | some rule, none =>
      match rest with
      | .operand value :: rest =>
        if rule.admits value then u.take (t.set s name value) rest else .rejected
      | _ => .rejected

def parse (u : Usage) (arguments : List String) : Parsed :=
  match u.classifyAll arguments with
  | some forms => u.take {} forms
  | none => .rejected

end Usage

end BinaryLayout.CommandLine
