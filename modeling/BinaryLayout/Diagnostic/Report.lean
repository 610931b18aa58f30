import BinaryLayout.Diagnostic.Basic

/-!
# Reporting

A check goes over a program and reports groups of messages as it finds them.  It can also fail,
on data that no program contains.
-/

namespace BinaryLayout

abbrev ReportM := StateT (List MessageGroup) (Except Failure)

def reportGroup (group : MessageGroup) : ReportM Unit :=
  modify fun groups => groups ++ [group]

def report (m : Message) : ReportM Unit :=
  reportGroup [m]

def ReportM.groups (check : ReportM Unit) : Checked (List MessageGroup) := do
  return (← check.run []).2

end BinaryLayout
