import BinaryLayout.CommandLine.Formatter
import BinaryLayout.CommandLine.Help
import BinaryLayout.Cpp.Overloads
import BinaryLayout.Language.Description

/-!
# The programs

The programs by the names under which they are called.  Each is run on its arguments and ends with
a status: zero if all went well, one if there was something to say about the input, and two if it
cannot be called like this.
-/

namespace BinaryLayout.CommandLine

section

variable {m : Type → Type} [Monad m]

def runWith (world : World m) (name : String) (usage : Usage)
    (act : Arguments → Command m Nat) (arguments : List String) : Command m Nat :=
  match usage.parse arguments with
  | .run a => act a
  | .help => do
    ExceptT.lift (world.print (usage.helpText name))
    return 0
  | .rejected => return 2

def showText (world : World m) (text : String) : Command m Nat := do
  ExceptT.lift (world.print text)
  return 0

def runProgram (world : World m) (limit : Nat) (name : String) (arguments : List String) :
    Command m Nat :=
  match name with
  | "front_end" => runWith world name frontEndUsage (runFrontEnd world limit) arguments
  | "codegen" => runWith world name generatorUsage (runGenerator world) arguments
  | "embossc" => runWith world name compilerUsage (runCompiler world limit) arguments
  | "format" | "emboss-format" =>
    runWith world name formatterUsage (runFormatter world) arguments
  | "grammar_md" => do showText world (← World.check Language.description)
  | "all_known" => showText world Cpp.allKnownHeader
  | "maximum_operation_do" => showText world Cpp.maximumHeader
  | _ => return 2

end

/-- Run a program on a tree of files.  It cannot ask for more files than there are characters in
all of them. -/
def runOnFiles (files : Files) (input name : String) (arguments : List String) :
    Checked Nat × VirtualHost :=
  let limit := files.texts.foldl (fun n (_, text) => n + text.length) 3
  ((runProgram VirtualHost.world limit name arguments).run).run { files := files, input := input }

end BinaryLayout.CommandLine
