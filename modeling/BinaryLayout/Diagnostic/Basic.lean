import BinaryLayout.Source.Location

/-!
# Diagnostics

What the compiler has to say about a definition: messages with a place, in groups of which the
first message states the matter and the others add to it.
-/

namespace BinaryLayout

inductive Severity where
  | error
  | warning
  | note
deriving DecidableEq

def Severity.text : Severity → String
  | .error => "error"
  | .warning => "warning"
  | .note => "note"

/-- Where the text of a message's location stands. -/
inductive Origin where
  | file (name : String)
  /-- In the definition that a reference leads to: the names of the reference, and how it is
  shown. -/
  | reference (names : List String) (shown : String)
deriving DecidableEq

/-- A message about a place in a definition. -/
structure Message where
  origin : Origin
  location : Location
  severity : Severity
  text : String
deriving DecidableEq

abbrev MessageGroup := List Message

/-- What a step comes to that a wrong definition stops: a result, or messages. -/
abbrev Reported (α : Type) := Except (List MessageGroup) α

/-- A location for a message: nothing is known of one that has no position. -/
def Location.forMessage (location? : Option Location) : Location :=
  match location? with
  | some l => if l.isKnown then l else .unknown
  | none => .unknown

namespace Message

def make (severity : Severity) (origin : Origin) (location : Option Location) (text : String) :
    Message :=
  ⟨origin, Location.forMessage location, severity, text⟩

def error (file : String) (location : Option Location) (text : String) : Message :=
  make .error (.file file) location text

def note (file : String) (location : Option Location) (text : String) : Message :=
  make .note (.file file) location text

end Message

def isSyntheticGroup (group : MessageGroup) : Bool :=
  group.any (·.location.isSynthetic)

/-- The groups about what the user wrote, and those about what the compiler made. -/
def splitGroups (groups : List MessageGroup) : List MessageGroup × List MessageGroup :=
  (groups.filter (!isSyntheticGroup ·), groups.filter isSyntheticGroup)

end BinaryLayout
