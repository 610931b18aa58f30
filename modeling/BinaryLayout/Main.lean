import BinaryLayout.CommandLine.Programs

/-!
# The command line

Runs a program on the disk.  The first argument names the program, and the others are its own.
-/

namespace BinaryLayout.CommandLine

def fileError : IO.Error → FileError
  | .noFileOrDirectory .. | .noSuchThing .. => .missing
  | .alreadyExists .. => .fileExists
  | .inappropriateType .. | .illegalOperation .. => .isADirectory
  | _ => .missing

def attempt {α : Type} (act : IO α) : IO (Except FileError α) := do
  try return .ok (← act)
  catch e => return .error (fileError e)

def disk : World IO where
  read path := attempt (IO.FS.readFile path)
  write path text := attempt (IO.FS.writeFile path text)
  createDirectories path := attempt (IO.FS.createDirAll path)
  input := do (← IO.getStdin).readToEnd
  print text := IO.print text
  printError text := IO.eprint text

/-- The greatest number of files in a program on the disk. -/
def diskLimit : Nat := 1000000

end BinaryLayout.CommandLine

open BinaryLayout.CommandLine in
/-- Run the program that the first argument names. -/
def main (arguments : List String) : IO UInt32 := do
  let name := arguments.headD ""
  match ← (runProgram disk diskLimit name arguments.tail).run with
  | .ok status =>
    if status == 2 then IO.eprintln (name ++ ": cannot be called like this")
    return UInt32.ofNat status
  | .error _ =>
    IO.eprintln (name ++ ": the input cannot be processed")
    return 1
