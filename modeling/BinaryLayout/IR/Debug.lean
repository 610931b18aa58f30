import BinaryLayout.Diagnostic.Debug
import BinaryLayout.IR.Encode

/-!
# Records in full

A record as text for those who look into the compiler: every field by name, also those that are
not set.
-/

namespace BinaryLayout.IR.Datum

mutual

def debugText : Datum → String
  | .unset => "None"
  | .text s => Text.quoted s
  | .flag b => debugBool b
  | .integer n => Text.decimal n
  | .location l => l.debugText
  | .operator o => "<FunctionMapping." ++ o.name ++ ": " ++ Text.decimal o.number ++ ">"
  | .unit u => "<AddressableUnit." ++ u.name ++ ": " ++ Text.decimal u.bits ++ ">"
  | .record kind members => kind.name ++ "(" ++ debugMembers kind members ++ ")"
  | .list elements => "[" ++ debugElements elements ++ "]"

def debugElements : List Datum → String
  | [] => ""
  | [e] => e.debugText
  | e :: rest => e.debugText ++ ", " ++ debugElements rest

def debugMembers (kind : Kind) : List (String × Datum) → String
  | [] => ""
  | (name, value) :: rest =>
    if (kind.field? name).isNone then debugMembers kind rest
    else
      let others := debugMembers kind rest
      name ++ "=" ++ value.debugText ++ if others.isEmpty then "" else ", " ++ others

end

end BinaryLayout.IR.Datum
