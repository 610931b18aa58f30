import BinaryLayout.IR.Basic
import BinaryLayout.LR.Tree

/-!
# What parts of a definition mean

The meaning of a part of a definition while the whole is being put together.  Most parts are
parts of the intermediate representation; the others are lists, and pieces that find their place
when the part around them is made.
-/

namespace BinaryLayout.Language

open IR

/-- The meaning of a subtree. -/
inductive Value where
  | token (t : LR.Token)
  | list (elements : List Value) (location : Option Location)
  | word (w : Word)
  | string (s : StringConstant)
  | documentation (d : Documentation)
  | boolean (b : BooleanConstant)
  | number (n : NumericConstant)
  | attribute (a : Attribute)
  | attributeValue (v : AttributeValue)
  | expression (e : Expression)
  | tail (operator : Word) (right : Expression) (location : Option Location)
  | reference (r : Reference)
  | name (n : NameDefinition)
  | type (t : TypeSpec)
  | blank (b : Blank)
  | placement (p : Placement)
  /-- A field, and the types that are defined with it. -/
  | field (f : Field) (subtypes : List TypeDefinition) (location : Option Location)
  /-- The documentation and attributes below a field or value. -/
  | body (documentation : List Documentation) (attributes : List Attribute)
      (location : Option Location)
  | typeDefinition (t : TypeDefinition)
  | parameter (p : RuntimeParameter)
  | enumValue (v : EnumValue)
  | imported (i : Import)
  | whole (m : Module)
deriving Inhabited

namespace Value

def elements : Value → List Value
  | .list elements _ => elements
  | _ => []

def location : Value → Option Location
  | .token t => t.location
  | .list _ l => l
  | .word w => w.location
  | .string s => s.location
  | .documentation d => d.location
  | .boolean b => b.location
  | .number n => n.location
  | .attribute a => a.location
  | .attributeValue v => v.location
  | .expression e => e.location
  | .tail _ _ l => l
  | .reference r => r.location
  | .name n => n.location
  | .type t => t.location
  | .blank b => b.location
  | .placement p => p.location
  | .field _ _ l => l
  | .body _ _ l => l
  | .typeDefinition t => t.location
  | .parameter p => p.location
  | .enumValue v => v.location
  | .imported i => i.location
  | .whole m => m.location

def placeType (l : Option Location) : TypeSpec → TypeSpec
  | .unset size _ => .unset size l
  | .atomic atom size _ => .atomic atom size l
  | .array base size arrayLocation bits _ => .array base size arrayLocation bits l

def placeAttributeValue (l : Option Location) : AttributeValue → AttributeValue
  | .unset _ => .unset l
  | .expression e _ => .expression e l
  | .string s _ => .string s l

def place (l : Option Location) : Value → Value
  | .token t => .token { t with location := l }
  | .list elements _ => .list elements l
  | .word w => .word { w with location := l }
  | .string s => .string { s with location := l }
  | .documentation d => .documentation { d with location := l }
  | .boolean b => .boolean { b with location := l }
  | .number n => .number { n with location := l }
  | .attribute a => .attribute { a with location := l }
  | .attributeValue v => .attributeValue (placeAttributeValue l v)
  | .expression e => .expression (e.withLocation l)
  | .tail operator right _ => .tail operator right l
  | .reference r => .reference { r with location := l }
  | .name n => .name { n with location := l }
  | .type t => .type (placeType l t)
  | .blank b => .blank { b with location := l }
  | .placement p => .placement { p with location := l }
  | .field f subtypes _ => .field f subtypes l
  | .body lines properties _ => .body lines properties l
  | .typeDefinition t => .typeDefinition { t with location := l }
  | .parameter p => .parameter { p with location := l }
  | .enumValue v => .enumValue { v with location := l }
  | .imported i => .imported { i with location := l }
  | .whole m => .whole { m with location := l }

/-- Take the place of the node that a part was made from, if that has one. -/
def settle (l : Option Location) (v : Value) : Value :=
  match l with
  | some location => if location.isKnown then v.place l else v
  | none => v

def attributes (v : Value) : List Attribute :=
  v.elements.filterMap fun | .attribute a => some a | _ => none

def documentationLines (v : Value) : List Documentation :=
  v.elements.filterMap fun | .documentation d => some d | _ => none

def expressions (v : Value) : List Expression :=
  v.elements.filterMap fun | .expression e => some e | _ => none

def references (v : Value) : List Reference :=
  v.elements.filterMap fun | .reference r => some r | _ => none

def typeDefinitions (v : Value) : List TypeDefinition :=
  v.elements.filterMap fun | .typeDefinition t => some t | _ => none

def fields (v : Value) : List (Field × List TypeDefinition) :=
  v.elements.filterMap fun | .field f subtypes _ => some (f, subtypes) | _ => none

def parameters (v : Value) : List RuntimeParameter :=
  v.elements.filterMap fun | .parameter p => some p | _ => none

def enumValues (v : Value) : List EnumValue :=
  v.elements.filterMap fun | .enumValue e => some e | _ => none

def imports (v : Value) : List Import :=
  v.elements.filterMap fun | .imported i => some i | _ => none

def tails (v : Value) : List (Word × Expression × Option Location) :=
  v.elements.filterMap fun | .tail operator right l => some (operator, right, l) | _ => none

def word? (v : Value) : Option Word :=
  v.elements.findSome? fun | .word w => some w | _ => none

def bodyParts (v : Value) : List Documentation × List Attribute :=
  (v.elements.findSome? fun | .body ds as _ => some (ds, as) | _ => none).getD ([], [])

end Value

end BinaryLayout.Language
