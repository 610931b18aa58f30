import BinaryLayout.IR.Basic

/-!
# Parts that the compiler makes

A part that nobody wrote has its place marked as synthetic, together with everything in it, and
parts made after a pattern take over what is set in another part.
-/

namespace BinaryLayout.IR

/-- A place marked as belonging to something that the compiler made. -/
def syntheticPlace (l : Option Location) : Option Location :=
  some (l.getD .unknown).synthetic

def Word.synthetic (w : Word) : Word :=
  { w with location := syntheticPlace w.location }

def StringConstant.synthetic (s : StringConstant) : StringConstant :=
  { s with location := syntheticPlace s.location }

def BooleanConstant.synthetic (b : BooleanConstant) : BooleanConstant :=
  { b with location := syntheticPlace b.location }

def NumericConstant.synthetic (n : NumericConstant) : NumericConstant :=
  { n with location := syntheticPlace n.location }

def NameDefinition.synthetic (n : NameDefinition) : NameDefinition :=
  { n with name := n.name.map Word.synthetic, location := syntheticPlace n.location }

def Reference.synthetic (r : Reference) : Reference :=
  { r with sourceName := r.sourceName.map Word.synthetic, location := syntheticPlace r.location }

def FieldReference.synthetic (r : FieldReference) : FieldReference :=
  ⟨r.path.map Reference.synthetic, syntheticPlace r.location⟩

def ExpressionType.synthetic : ExpressionType → ExpressionType
  | .enumeration known => .enumeration { known with name := known.name.map Reference.synthetic }
  | t => t

def Annotation.synthetic (n : Annotation) : Annotation :=
  ⟨n.type.map ExpressionType.synthetic, syntheticPlace n.location⟩

namespace Expression

mutual

def synthetic : Expression → Expression
  | .unset note => .unset note.synthetic
  | .constant value note => .constant value.synthetic note.synthetic
  | .constantReference r note => .constantReference r.synthetic note.synthetic
  | .function operator args name location note =>
    .function operator (allSynthetic args) (name.map Word.synthetic) (syntheticPlace location)
      note.synthetic
  | .fieldReference r note => .fieldReference r.synthetic note.synthetic
  | .booleanConstant value note => .booleanConstant value.synthetic note.synthetic
  | .builtinReference r note => .builtinReference r.synthetic note.synthetic

def allSynthetic : List Expression → List Expression
  | [] => []
  | e :: rest => e.synthetic :: allSynthetic rest

end

def orElse (e other : Expression) : Expression :=
  let note : Annotation :=
    ⟨e.type.orElse fun _ => other.type, e.location.orElse fun _ => other.location⟩
  match e with
  | .unset _ => other.withNote note
  | e => e.withNote note

def filledFrom (other : Expression) : Option Expression → Expression
  | some e => e.orElse other
  | none => other

end Expression

def AttributeValue.synthetic : AttributeValue → AttributeValue
  | .unset l => .unset (syntheticPlace l)
  | .expression e l => .expression e.synthetic (syntheticPlace l)
  | .string s l => .string s.synthetic (syntheticPlace l)

def Attribute.synthetic (a : Attribute) : Attribute :=
  { a with
    name := a.name.map Word.synthetic
    value := a.value.map AttributeValue.synthetic
    backEnd := a.backEnd.map Word.synthetic
    location := syntheticPlace a.location }

end BinaryLayout.IR
