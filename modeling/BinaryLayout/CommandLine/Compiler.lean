import BinaryLayout.CommandLine.Options
import BinaryLayout.CommandLine.World
import BinaryLayout.Compile.Stages
import BinaryLayout.Cpp.Header
import BinaryLayout.IR.Decode
import BinaryLayout.IR.Serial
import BinaryLayout.Json.Printer
import BinaryLayout.Json.Reader

/-!
# The commands of the compiler

The front end reads a file with all that it imports and shows or writes what it made of it.  The
generator reads what the front end wrote and makes a C++ header of it.  The compiler does both.
-/

namespace BinaryLayout.CommandLine

open IR Compile

def colorSwitch (onTerminal : String) : Switch :=
  { names := ["--color-output"]
    value := some (.oneOf ["always", "never", onTerminal, "auto"])
    help := "Print error messages using color. 'auto' is a synonym for '" ++ onTerminal ++ "'." }

def Arguments.usesColor (a : Arguments) : Bool :=
  a.value? "--color-output" == some "always"

def importSwitch (directories : String) : Switch :=
  { names := ["--import-dir", "-I"]
    value := some .any
    label := "IMPORT_DIRS"
    help := "A directory to use when searching for imported embs. If no " ++ directories ++
      " are specified, the current directory will be used." }

def Arguments.directories (a : Arguments) : List String :=
  "." :: a.values "--import-dir"

def traitsSwitch : Switch :=
  { names := ["--cc-enum-traits", "--no-cc-enum-traits"]
    help := "Controls generation of EnumTraits by the C++ backend (default: True)" }

def Arguments.headerConfig (a : Arguments) : Cpp.Config :=
  ⟨a.lastName? "--cc-enum-traits" != some "--no-cc-enum-traits"⟩

def frontEndUsage : Usage where
  description := "Emboss compiler front end."
  switches :=
    [{ names := ["--debug-show-tokenization"]
       help := "Show the tokenization of the main input file." },
      { names := ["--debug-show-parse-tree"]
        help := "Show the parse tree of the main input file." },
      { names := ["--debug-show-module-ir"]
        help := "Show the module-level IR of the main input file before symbol resolution." },
      { names := ["--debug-stop-before-step"]
        value := some .any
        label := "DEBUG_STOP_BEFORE_STEP"
        help := "Stop processing before the specified step." },
      { names := ["--debug-show-full-ir"]
        help := "Show the final IR of the main input file." },
      { names := ["--debug-show-used-productions"]
        help := "Show all of the grammar productions used in parsing the main input file." },
      { names := ["--debug-show-unused-productions"]
        help := "Show all of the grammar productions not used in parsing the main input file." },
      { names := ["--output-ir-to-stdout"]
        help := "Dump serialized IR to stdout." },
      { names := ["--output-file"]
        value := some .any
        label := "OUTPUT_FILE"
        help := "Write serialized IR to file." },
      { names := ["--no-debug-show-header-lines"]
        help := "Print header lines before output if true." },
      colorSwitch "if_tty", importSwitch "import_dirs"]
  operands := .one
  operandHelp := ".emb file to compile."

def generatorUsage : Usage where
  description := "Emboss compiler C++ back end."
  switches :=
    [{ names := ["--input-file"]
       value := some .any
       label := "INPUT_FILE"
       help := ".emb.ir file to compile." },
      { names := ["--output-file"]
        value := some .any
        label := "OUTPUT_FILE"
        help := "Write header to file. If not specified, write header to stdout." },
      colorSwitch "if_tty", traitsSwitch]

def compilerUsage : Usage where
  description := "Emboss compiler"
  switches :=
    [colorSwitch "if_tty", importSwitch "import-dirs",
      { names := ["--generate"]
        value := some (.oneOf ["cc"])
        help := "Which back end to use. Currently only C++ is supported." },
      { names := ["--output-path"]
        value := some .any
        label := "OUTPUT_PATH"
        help := "Prefix path to use for the generated output file. Defaults to '.'" },
      { names := ["--output-file"]
        value := some .any
        label := "OUTPUT_FILE"
        help := "File name to be used for the generated output file. Defaults to input_file " ++
          "suffixed by '.h'" },
      traitsSwitch]
  operands := .one
  operandHelp := ".emb file to compile."

section

variable {m : Type → Type} [Monad m]

/-- Look for a file in some directories, in their order, given what was wrong with it in the
directories before. -/
def findIn (world : World m) (file : String) (all : List String) (faults : List String) :
    List String → m FileText
  | [] => return .error (faults ++ ["import path " ++ String.intercalate ":" all])
  | directory :: rest => do
    let path := joinPath directory file
    match ← world.readText path with
    | .ok text => return .ok text
    | .error e => findIn world file all (faults ++ [e.message path]) rest

/-- Read files until none is asked for, a bounded number of them at most. -/
def gatherFrom (world : World m) (directories : List String) :
    Nat → Gathering → Command m (Gathering × List MessageGroup)
  | 0, _ => throw .exhausted
  | limit + 1, g =>
    match g.next? with
    | none => return (g, [])
    | some file => do
      let text ←
        if file.isEmpty then pure (.ok Language.preludeText)
        else ExceptT.lift (findIn world file directories [] directories)
      let (g, groups) ← World.check (g.feed file text)
      if groups.isEmpty then gatherFrom world directories limit g else return (g, groups)

def showGroups (world : World m) (groups : List MessageGroup) (sources : Sources)
    (color : Bool) : Command m Unit := do
  world.printErrorLine (← World.check (renderGroups groups sources color))

/-- Compile a file with all that it imports, or print what is wrong.  The lines that messages are
about are not shown. -/
def compileFile (world : World m) (limit : Nat) (a : Arguments) (file : String) :
    Command m (Option (Gathering × Program)) := do
  let (g, groups) ← gatherFrom world a.directories limit (Gathering.start {} file)
  let result ←
    if groups.isEmpty then
      World.check (process (a.value? "--debug-stop-before-step") g.program)
    else pure (.error groups)
  match result with
  | .ok p => return some (g, p)
  | .error groups =>
    showGroups world groups [] a.usesColor
    return none

def programText (p : Program) : String :=
  (p.toDatum.toJson false).compact

def productionLines (productions : List LR.Production) : String :=
  Text.joinLines (productions.map (·.text))

/-- The switches that show something about a file, with a title and what is shown.  A module that
stands alone is shown without the name of its file. -/
def inspections (read : Language.ReadModule) (p : Program) : List (String × String × String) :=
  let used := read.usedProductions
  let contents := { read.contents with fileName := none }
  [("--debug-show-tokenization", "Tokenization:", Text.joinLines (read.tokens.map (·.shown))),
    ("--debug-show-parse-tree", "Parse Tree:", read.tree.outline ""),
    ("--debug-show-module-ir", "Module IR:", (contents.toDatum.toJson false).laidOut 2),
    ("--debug-show-full-ir", "Full IR:", p.toDatum.debugText),
    ("--debug-show-used-productions", "Used Productions:", productionLines used),
    ("--debug-show-unused-productions", "Unused Productions:",
      productionLines (Language.productions.filter fun q => !used.contains q))]

def writeTo (world : World m) (file : String) (text : String) : Command m Unit :=
  if file.isEmpty then return else World.need (world.write file text)

def runFrontEnd (world : World m) (limit : Nat) (a : Arguments) : Command m Nat := do
  let file := a.operands.headD ""
  match ← compileFile world limit a file with
  | none => return 1
  | some (g, p) =>
    match (g.files.find? (·.name == file)).bind (·.reading) with
    | none => throw .noEntry
    | some read =>
      for (switch, title, text) in inspections read p do
        if a.has switch then
          if !a.has "--no-debug-show-header-lines" then world.printLine title
          world.printLine text
    if a.has "--output-ir-to-stdout" then world.printLine (programText p)
    writeTo world ((a.value? "--output-file").getD "") (programText p)
    return 0

def makeHeader (world : World m) (a : Arguments) (p : Program) : Command m (Option String) := do
  match ← World.check (Cpp.header a.headerConfig p) with
  | .ok text => return some text
  | .error groups =>
    let sources := p.modules.filterMap fun file => do return (← file.fileName, ← file.sourceText)
    showGroups world groups sources a.usesColor
    return none

def runGenerator (world : World m) (a : Arguments) : Command m Nat := do
  let file := (a.value? "--input-file").getD ""
  let text ←
    if file.isEmpty then ExceptT.lift world.input else World.need (world.readText file)
  let data ← match Json.parse? text with
    | some data => pure data
    | none => throw .notJson
  let p := Program.ofDatum (← World.check (Kind.ofJson .program data))
  match ← makeHeader world a p with
  | none => return 1
  | some text =>
    let output := (a.value? "--output-file").getD ""
    if output.isEmpty then world.printLine text else writeTo world output text
    return 0

def runCompiler (world : World m) (limit : Nat) (a : Arguments) : Command m Nat := do
  let file := a.operands.headD ""
  match ← compileFile world limit a file with
  | none => return 1
  | some (_, p) =>
    match ← makeHeader world a p with
    | none => return 1
    | some text =>
      let path := joinPath ((a.value? "--output-path").getD ".")
        ((a.value? "--output-file").getD (file ++ ".h"))
      World.need (world.createDirectories (directoryOf path))
      World.need (world.write path text)
      return 0

end

end BinaryLayout.CommandLine
