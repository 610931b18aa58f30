import BinaryLayout.CommandLine.Files

/-!
# What is around a command

A command reads and writes files, reads its input, and prints.  It is written against a `World`,
which says how that is done in some monad, so that it can be run on a disk as well as on a tree
of files in memory, the `VirtualHost`.
-/

namespace BinaryLayout.CommandLine

/-- What a command can do. -/
structure World (m : Type → Type) where
  read : String → m (Except FileError String)
  write : String → String → m (Except FileError Unit)
  createDirectories : String → m (Except FileError Unit)
  input : m String
  print : String → m Unit
  printError : String → m Unit

/-- A command under way, which ends with a value or fails. -/
abbrev Command (m : Type → Type) (α : Type) := ExceptT Failure m α

namespace World

variable {m : Type → Type} [Monad m]

def check {α : Type} (result : Checked α) : Command m α :=
  ExceptT.mk (pure result)

def need {α : Type} (result : m (Except FileError α)) : Command m α :=
  ExceptT.mk do
    match ← result with
    | .ok a => return .ok a
    | .error e => return .error e.failure

def printLine (world : World m) (text : String) : Command m Unit :=
  ExceptT.lift (world.print (text ++ "\n"))

def printErrorLine (world : World m) (text : String) : Command m Unit :=
  ExceptT.lift (world.printError (text ++ "\n"))

def readText (world : World m) (path : String) : m (Except FileError String) := do
  match ← world.read path with
  | .ok text => return .ok (String.ofList (Text.universalNewlines text.toList))
  | .error e => return .error e

end World

/-- A host in memory: a tree of files, an input, and what was printed. -/
structure VirtualHost where
  files : Files
  input : String := ""
  output : String := ""
  errors : String := ""

namespace VirtualHost

def change (act : Files → Except FileError Files) : StateM VirtualHost (Except FileError Unit) := do
  match act (← get).files with
  | .ok files =>
    modify fun s => { s with files := files }
    return .ok ()
  | .error e => return .error e

def world : World (StateM VirtualHost) where
  read path := do return (← get).files.read path
  write path text := change (·.write path text)
  createDirectories path := change (·.createDirectories path)
  input := do return (← get).input
  print text := modify fun s => { s with output := s.output ++ text }
  printError text := modify fun s => { s with errors := s.errors ++ text }

end VirtualHost

end BinaryLayout.CommandLine
