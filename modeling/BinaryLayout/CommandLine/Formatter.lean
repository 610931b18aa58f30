import BinaryLayout.CommandLine.Compiler
import BinaryLayout.Format.Check
import BinaryLayout.Format.Tree

/-!
# The command of the formatter

The formatter rewrites files in place, or prints one in its new form.  A file that cannot be read
as a module, or whose new form would not mean the same, is left as it is.
-/

namespace BinaryLayout.CommandLine

def formatterUsage : Usage where
  description := "Emboss compiler front end."
  switches :=
    [{ names := ["--no-check-result"]
       help := "Verify that the resulting formatted text contains only whitespace changes." },
      { names := ["--debug-show-line-types"]
        value := some .any
        label := "DEBUG_SHOW_LINE_TYPES"
        help := "Show the computed type of each line." },
      { names := ["--no-edit-in-place"]
        help := "Write the formatted text back to the input file." },
      { names := ["--indent"]
        value := some .integer
        label := "INDENT"
        help := "Number of spaces to use for each level of indentation." },
      colorSwitch "if-tty"]
  operands := .several
  operandHelp := ".emb file to compile."

section

variable {m : Type → Type} [Monad m]

structure FormatRequest where
  config : Format.Config
  checksResult : Bool
  editsInPlace : Bool
  usesColor : Bool

def Arguments.formatRequest (a : Arguments) : FormatRequest where
  config :=
    ⟨((a.value? "--indent").bind Text.readInteger).getD 2,
      !((a.value? "--debug-show-line-types").getD "").isEmpty⟩
  checksResult := !a.has "--no-check-result"
  editsInPlace := !a.has "--no-edit-in-place"
  usesColor := a.usesColor

def formatFile (world : World m) (request : FormatRequest) (file : String) : Command m Unit := do
  let text ← World.need (world.readText file)
  match ← World.check (Language.parseText text file) with
  | .error groups => showGroups world groups [(file, text)] request.usesColor
  | .ok (_, tree) =>
    let formatted := Format.formatTree request.config tree
    let faults ←
      if request.checksResult && !request.config.showLineTypes then
        World.check (Format.checkFormatted formatted text)
      else pure []
    if !faults.isEmpty then
      for fault in faults do world.printErrorLine fault
    else if request.editsInPlace then World.need (world.write file formatted)
    else ExceptT.lift (world.print formatted)

def runFormatter (world : World m) (a : Arguments) : Command m Nat := do
  let request := a.formatRequest
  if !request.editsInPlace && a.operands.length > 1 then
    world.printErrorLine "Multiple files may only be formatted without --no-edit-in-place."
    return 1
  if request.editsInPlace && request.config.showLineTypes then
    world.printErrorLine "The flag --debug-show-line-types requires --no-edit-in-place."
    return 1
  for file in a.operands do formatFile world request file
  return 0

end

end BinaryLayout.CommandLine
