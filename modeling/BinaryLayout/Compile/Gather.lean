import BinaryLayout.Language.Prelude
import BinaryLayout.Language.Reading

/-!
# Gathering a program

A program is a main file and all that it imports, directly or through others.  The files are read
one after another: the main file first, then the files that it imports in their order, then those
that these import, each once.  The prelude is the file without a name, and every file imports it.

Gathering is a sequence of steps.  Each asks for one file and goes on with its text, so that
whoever has the files decides how they are found.
-/

namespace BinaryLayout.Compile

open IR BinaryLayout.Language

/-- What is remembered between programs: how many unnamed fields have been given a name, and the
modules that have been read. -/
structure Session where
  named : Nat := 0
  modules : List ReadModule := []

def Session.read (s : Session) (text file : String) :
    Checked (Reported (ReadModule × Session)) := do
  match s.modules.find? fun m => m.fileName == file && m.text == text with
  | some m => return .ok (m, s)
  | none =>
    match ← readModule text file s.named with
    | .error groups => return .error groups
    | .ok (m, named) => return .ok (m, ⟨named, m :: s.modules⟩)

/-- A file that was read, and the module in it if it has one. -/
structure GatheredFile where
  name : String
  text : String
  reading : Option ReadModule

/-- Whether two files are the same.  The module in a file follows from its name and text. -/
def GatheredFile.same (a b : GatheredFile) : Bool :=
  a.name == b.name && a.text == b.text

abbrev FileText := Except (List String) String

/-- A program that is being gathered. -/
structure Gathering where
  session : Session
  /-- The files still to read. -/
  queue : List String
  asked : List String
  files : List GatheredFile := []
  modules : List Module := []

namespace Gathering

def start (session : Session) (main : String) : Gathering :=
  { session := session, queue := [main], asked := [main] }

def next? (g : Gathering) : Option String :=
  g.queue.head?

def ask (g : Gathering) : List Import → Checked Gathering
  | [] => return g
  | i :: rest => do
    let name := (← Failure.require i.fileName).text.getD ""
    if g.asked.contains name then g.ask rest
    else
      let extended : Gathering := { g with queue := g.queue ++ [name], asked := g.asked ++ [name] }
      extended.ask rest

def unreadable (file : String) (details : List String) : MessageGroup :=
  let place := some (Location.onLine 1 1 1)
  .error file place "Unable to read file." :: details.map (.note file place ·)

/-- Go on with a text for the file that was asked for.  With messages, the files that were read
so far are still there. -/
def feed (g : Gathering) (file : String) (text : FileText) :
    Checked (Gathering × List MessageGroup) := do
  let g := { g with queue := g.queue.tail }
  match text with
  | .error details => return (g, [unreadable file details])
  | .ok text =>
    match ← g.session.read text file with
    | .error groups =>
      let failed : GatheredFile := ⟨file, text, none⟩
      return ({ g with files := g.files ++ [failed] }, groups)
    | .ok (m, session) =>
      let read : GatheredFile := ⟨file, text, some m⟩
      let g := { g with
        session := session
        files := g.files ++ [read]
        modules := g.modules ++ [m.contents] }
      return (← g.ask m.contents.imports, [])

def textOf (sources : String → FileText) (file : String) : FileText :=
  if file.isEmpty then .ok preludeText else sources file

/-- Read files until none is asked for, a bounded number of them at most. -/
def run (sources : String → FileText) : Nat → Gathering → Checked (Gathering × List MessageGroup)
  | 0, _ => .error .exhausted
  | limit + 1, g =>
    match g.next? with
    | none => return (g, [])
    | some file => do
      let (g, groups) ← g.feed file (textOf sources file)
      if groups.isEmpty then run sources limit g else return (g, groups)

def program (g : Gathering) : Program :=
  ⟨g.modules⟩

end Gathering

def gather (session : Session) (limit : Nat) (sources : String → FileText) (main : String) :
    Checked (Gathering × List MessageGroup) :=
  (Gathering.start session main).run sources (limit + 3)

end BinaryLayout.Compile
