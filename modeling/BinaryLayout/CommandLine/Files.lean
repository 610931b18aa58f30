import BinaryLayout.Failure
import BinaryLayout.Text.Lines
import BinaryLayout.Text.Quoted

/-!
# Files and paths

A tree of files in memory, for commands that are run without touching a disk.  Paths are relative
to the root of the tree; a path that leaves the tree leads nowhere.
-/

namespace BinaryLayout.CommandLine

/-- Why a file cannot be used. -/
inductive FileError where
  | missing
  | notADirectory
  | isADirectory
  | fileExists
deriving DecidableEq

namespace FileError

def wording : FileError → Nat × String
  | .missing => (2, "No such file or directory")
  | .fileExists => (17, "File exists")
  | .notADirectory => (20, "Not a directory")
  | .isADirectory => (21, "Is a directory")

def message (e : FileError) (path : String) : String :=
  "[Errno " ++ Text.decimal e.wording.1 ++ "] " ++ e.wording.2 ++ ": " ++ Text.quoted path

def failure : FileError → Failure
  | .missing => .noFile
  | .fileExists => .fileExists
  | .notADirectory => .notADirectory
  | .isADirectory => .isADirectory

end FileError

def joinPath (directory name : String) : String :=
  if name.startsWith "/" then name
  else if directory.isEmpty || directory.endsWith "/" then directory ++ name
  else directory ++ "/" ++ name

def directoryOf (path : String) : String :=
  let head := (path.toList.reverse.dropWhile (· != '/'))
  let trimmed := head.dropWhile (· == '/')
  String.ofList (if trimmed.isEmpty then head.reverse else trimmed.reverse)

/-- A tree of files.  A path is given by its parts, and the root is a directory without being
listed. -/
structure Files where
  texts : List (List String × String) := []
  directories : List (List String) := []

namespace Files

def isDirectory (files : Files) (parts : List String) : Bool :=
  parts.isEmpty || files.directories.contains parts

def text? (files : Files) (parts : List String) : Option String :=
  files.texts.lookup parts

def addDirectory (files : Files) (parts : List String) : Files :=
  if files.isDirectory parts then files
  else { files with directories := files.directories ++ [parts] }

def setText (files : Files) (parts : List String) (text : String) : Files :=
  if files.texts.any (·.1 == parts) then
    { files with texts := files.texts.map fun (p, t) => (p, if p == parts then text else t) }
  else { files with texts := files.texts ++ [(parts, text)] }

def namesOf (path : String) : List String :=
  (Text.splitOn "/" path).filter fun part => !(part.isEmpty || part == ".")

def add (files : Files) (path text : String) : Files :=
  let parts := namesOf path
  let around := (List.range parts.length).map fun n => parts.take n
  (around.foldl addDirectory files).setText parts text

def ofList (texts : List (String × String)) : Files :=
  texts.foldl (fun files (path, text) => files.add path text) {}

/-- Follow the parts of a path from a directory.  All but the last part have to be directories;
the last may be new. -/
def walk (files : Files) (here : List String) : List String → Except FileError (List String)
  | [] => .ok here
  | part :: rest =>
    if part.isEmpty || part == "." then walk files here rest
    else if part == ".." then
      if here.isEmpty then .error .missing else walk files here.dropLast rest
    else
      let next := here ++ [part]
      if rest.isEmpty || files.isDirectory next then walk files next rest
      else if (files.text? next).isSome then .error .notADirectory
      else .error .missing

def place (files : Files) (path : String) : Except FileError (List String) :=
  if path.isEmpty || path.startsWith "/" then .error .missing
  else files.walk [] (Text.splitOn "/" path)

def read (files : Files) (path : String) : Except FileError String := do
  let parts ← files.place path
  if files.isDirectory parts then throw .isADirectory
  match files.text? parts with
  | some text => return text
  | none => throw .missing

def write (files : Files) (path text : String) : Except FileError Files := do
  let parts ← files.place path
  if files.isDirectory parts then throw .isADirectory
  return files.setText parts text

def createAlong (files : Files) (here : List String) : List String → Except FileError Files
  | [] => .ok files
  | part :: rest =>
    if part == ".." then
      if here.isEmpty then .error .missing else createAlong files here.dropLast rest
    else
      let next := here ++ [part]
      if (files.text? next).isSome then
        .error (if rest.isEmpty then .fileExists else .notADirectory)
      else createAlong (files.addDirectory next) next rest

def createDirectories (files : Files) (path : String) : Except FileError Files :=
  if path.isEmpty then .error .missing
  else files.createAlong [] (namesOf path)

def changes (before after : Files) : List (String × String) :=
  (after.texts.filter fun (parts, text) => before.text? parts != some text).map
    fun (parts, text) => (String.intercalate "/" parts, text)

end Files

end BinaryLayout.CommandLine
