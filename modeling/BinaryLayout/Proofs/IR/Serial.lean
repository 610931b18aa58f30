import BinaryLayout.IR.Serial
import BinaryLayout.Proofs.Checked
import BinaryLayout.Proofs.Json.RoundTrip

/-!
# Records are read back as they were written

A record may have any of its fields unset, an empty record or list in it, and places with both
marks.  Fields that are vacant are not written and come back as they were.
-/

namespace BinaryLayout

open List Checked

namespace Text

theorem toNat_of_isDigit {c : Char} (isDigit : c.isDigit = true) :
    48 ≤ c.toNat ∧ c.toNat < 58 := by
  simp only [Char.isDigit, Bool.and_eq_true, decide_eq_true_eq] at isDigit
  exact ⟨isDigit.1, Nat.lt_succ_of_le isDigit.2⟩

theorem digitValue?_of_isDigit {c : Char} (isDigit : c.isDigit = true) :
    digitValue? c = some (c.toNat - '0'.toNat) := by
  simp [digitValue?, digitZeros, toNat_of_isDigit isDigit]

theorem readDigits_of_isDigit {digits : List Char} (areDigits : ∀ c ∈ digits, c.isDigit = true)
    (value : Nat) : readDigits value digits = some (Nat.ofDigitChars 10 digits value) := by
  induction digits generalizing value with
  | nil => rfl
  | cons c rest ih =>
    rw [forall_mem_cons] at areDigits
    have noBar : c ≠ '_' := by
      rintro rfl
      cases areDigits.1
    rw [readDigits.eq_3 _ _ _ fun _ _ same => (noBar same).elim,
      digitValue?_of_isDigit areDigits.1, Nat.ofDigitChars_cons]
    exact ih areDigits.2 _

theorem trim_of_isDigit {s : List Char} (areDigits : ∀ c ∈ s, c.isDigit = true) : trim s = s := by
  have kept {l : List Char} (each : ∀ c ∈ l, c.isDigit = true) : l.dropWhile isBlank = l := by
    cases l with
    | nil => rfl
    | cons c =>
      have bounds := toNat_of_isDigit (each c mem_cons_self)
      refine dropWhile_cons_of_neg ?_
      simp [isBlank]
      omega
  rw [trim, trimLeft, kept areDigits, trimRight, kept (by simpa using areDigits),
    reverse_reverse]

theorem readInteger_decimal (n : Nat) : readInteger (decimal n) = some (n : Int) := by
  have areDigits (c : Char) (member : c ∈ Nat.toDigits 10 n) := isDigit_of_mem_toDigits member
  have value : Nat.ofDigitChars 10 (Nat.toDigits 10 n) 0 = n :=
    Nat.ofDigitChars_toDigits (by decide) (by decide)
  simp only [readInteger, decimal, String.toList_ofList, trim_of_isDigit areDigits]
  rcases digitsAre : Nat.toDigits 10 n with _ | ⟨d, ds⟩
  · exact (Nat.toDigits_ne_nil digitsAre).elim
  · rw [digitsAre, forall_mem_cons] at areDigits
    rw [digitsAre, Nat.ofDigitChars_cons, Nat.mul_zero, Nat.zero_add] at value
    have read : readUnsigned (d :: ds) = some n := by
      rw [readUnsigned, digitValue?_of_isDigit areDigits.1]
      exact (readDigits_of_isDigit areDigits.2 _).trans (congrArg some value)
    split
    · next same => cases same; cases areDigits.1
    · next same => cases same; cases areDigits.1
    · rw [read]; rfl

theorem splitOn_pair {separator : String} {c : Char} {before after : List Char}
    (single : separator.toList = [c]) (freeBefore : c ∉ before) (freeAfter : c ∉ after) :
    splitOn separator (String.ofList (before ++ c :: after)) =
      [String.ofList before, String.ofList after] := by
  have last (piece : List Char) : splitFrom [c] piece after 0 = [piece.reverse ++ after] := by
    clear freeBefore
    induction after generalizing piece with
    | nil => simp [splitFrom]
    | cons d rest ih =>
      rw [mem_cons, not_or] at freeAfter
      simp [splitFrom, freeAfter.1, ih freeAfter.2]
  have first (piece : List Char) : splitFrom [c] piece (before ++ c :: after) 0 =
      (piece.reverse ++ before) :: splitFrom [c] [] after 0 := by
    induction before generalizing piece with
    | nil => simp [splitFrom]
    | cons d rest ih =>
      rw [mem_cons, not_or] at freeBefore
      simp [splitFrom, freeBefore.1, ih freeBefore.2]
  simp [splitOn, single, first, last]

end Text

namespace Position

def spelling (p : Position) : List Char :=
  Nat.toDigits 10 p.line ++ ':' :: Nat.toDigits 10 p.column

theorem text_eq (p : Position) : p.text = String.ofList p.spelling := by
  simp [text, Text.decimal, spelling, ← String.toList_inj]

theorem isDigit_of_mem_spelling {p : Position} {c : Char} (member : c ∈ p.spelling) :
    c.isDigit = true ∨ c = ':' := by
  simp only [spelling, mem_append, mem_cons] at member
  rcases member with member | rfl | member
  · exact .inl (Text.isDigit_of_mem_toDigits member)
  · exact .inr rfl
  · exact .inl (Text.isDigit_of_mem_toDigits member)

theorem ofText?_text {p : Position} (valid : p.IsValid) : ofText? p.text = some p := by
  have free (n : Nat) : ':' ∉ Nat.toDigits 10 n := fun member => by
    cases Text.isDigit_of_mem_toDigits member
  have line := Text.readInteger_decimal p.line
  have column := Text.readInteger_decimal p.column
  rw [ofText?, text_eq, spelling, Text.splitOn_pair rfl (free _) (free _)]
  simp only [Text.decimal] at line column
  simp only [line, column]
  exact if_pos valid

end Position

namespace Location

def IsWritable (l : Location) : Prop :=
  l.start.IsValid ∧ l.stop.IsValid ∧ l.IsValid

def markSpelling (mark : Char) (isSet : Bool) : List Char :=
  if isSet then [mark] else []

theorem takeMark_markSpelling {mark : Char} {s : List Char} (free : mark ∉ s) (isSet : Bool) :
    takeMark mark (s ++ markSpelling mark isSet) = (s, isSet) := by
  cases isSet with
  | true => simp [takeMark, markSpelling]
  | false =>
    rw [markSpelling, if_neg Bool.false_ne_true, append_nil, takeMark]
    split
    · next c last => exact if_neg fun same : c = mark => free (same ▸ mem_of_getLast? last)
    · rfl

theorem text_eq (l : Location) :
    l.text = String.ofList (l.start.spelling ++ '-' :: l.stop.spelling ++
      markSpelling '^' l.isDisjoint ++ markSpelling '*' l.isSynthetic) := by
  unfold text markSpelling
  cases l.isDisjoint <;> cases l.isSynthetic <;> simp [Position.text_eq, ← String.toList_inj]

theorem ofText_text {l : Location} (writable : l.IsWritable) : ofText l.text = .ok l := by
  rcases writable with ⟨startValid, stopValid, valid⟩
  have free {c : Char} (no : ¬ (c.isDigit = true ∨ c = ':')) (p : Position) : c ∉ p.spelling :=
    fun member => no (Position.isDigit_of_mem_spelling member)
  have pieces : Text.splitOn "-" (String.ofList (l.start.spelling ++ '-' :: l.stop.spelling)) =
      [l.start.text, l.stop.text] := by
    rw [Position.text_eq, Position.text_eq]
    exact Text.splitOn_pair rfl (free (by decide) _) (free (by decide) _)
  have caret : '^' ∉ l.start.spelling ++ '-' :: l.stop.spelling := by simp [free]
  have star : '*' ∉ l.start.spelling ++ '-' :: l.stop.spelling ++
      markSpelling '^' l.isDisjoint := by
    cases l.isDisjoint <;> simp [free, markSpelling]
  have read : ofText? l.text = some l := by
    rw [text_eq, ofText?, String.toList_ofList, takeMark_markSpelling star]
    simp only [takeMark_markSpelling caret, pieces, Position.ofText?_text startValid,
      Position.ofText?_text stopValid]
    exact if_pos valid
  rw [ofText, read]

end Location

namespace IR

/-- Of the members of a choice at most one is set. -/
def Kind.Exclusive (kind : Kind) (values : FieldSpec → Datum) : Prop :=
  ∀ spec ∈ kind.fields, ∀ rival ∈ kind.fields, rival ≠ spec → spec.choice.isSome →
    spec.choice = rival.choice → (values spec).isSet → values rival = .unset

/-- A value has the type that a field declares.  A record has a value for every field of its kind:
a list for a field that holds several, and for every other field nothing or a value of its
type. -/
inductive Datum.Fits : FieldType → Datum → Prop
  | text (s : String) : Fits (.scalar .text) (.text s)
  | flag (b : Bool) : Fits (.scalar .flag) (.flag b)
  | integer (n : Int) : Fits (.scalar .integer) (.integer n)
  | location {l : Location} (writable : l.IsWritable) : Fits (.scalar .location) (.location l)
  | operator (o : Operator) : Fits (.scalar .operator) (.operator o)
  | unit (u : AddressableUnit) : Fits (.scalar .unit) (.unit u)
  | record {kind : Kind} {values : FieldSpec → Datum}
      (single : ∀ spec ∈ kind.fields, spec.isList = false → (values spec).isSet →
        Fits spec.type (values spec))
      (present : ∀ spec ∈ kind.fields, spec.container = .single → (values spec).isSet)
      (isList : ∀ spec ∈ kind.fields, spec.isList → values spec = .list (values spec).elements)
      (several : ∀ spec ∈ kind.fields, spec.isList → ∀ e ∈ (values spec).elements,
        Fits spec.type e)
      (exclusive : kind.Exclusive values) :
      Fits (.node kind) (.record kind (kind.fields.map fun spec => (spec.name, values spec)))

variable {kind : Kind} {spec : FieldSpec} {d : Datum} {values : FieldSpec → Datum}
  {specs : List FieldSpec} {elements : List Datum} {type : FieldType}

theorem Kind.field?_name : ∀ kind : Kind, ∀ spec ∈ kind.fields,
    kind.field? spec.name = some spec := by
  intro kind
  cases kind <;> decide

theorem Kind.nodup_fields (kind : Kind) : kind.fields.Nodup := by
  cases kind <;> decide

theorem Kind.scalar_of_isList : ∀ kind : Kind, ∀ spec ∈ kind.fields, spec.isList →
    spec.type ≠ .scalar .flag ∧ spec.type ≠ .scalar .location ∧ spec.type ≠ .scalar .operator ∧
      spec.type ≠ .scalar .unit := by
  intro kind
  cases kind <;> decide

/-- Read a value of a type. -/
def FieldType.ofJson : FieldType → Json → Checked Datum
  | .scalar s, j => s.ofJson j
  | .node kind, j => kind.ofJson j

theorem FieldSpec.ofJson_of_not_isList {j : Json} (one : spec.isList = false)
    (given : j ≠ .null) : spec.ofJson j = spec.type.ofJson j := by
  rcases typeIs : spec.type with s | kind <;> cases j <;>
    simp_all [FieldSpec.ofJson, FieldType.ofJson, Kind.ofJson]

theorem Datum.elementsToJson_eq_map (elements : List Datum) :
    elementsToJson false elements = elements.map (toJson false) := by
  induction elements with
  | nil => rfl
  | cons e rest ih => rw [elementsToJson, ih, map_cons]

theorem Kind.allOfJson_toJson (each : ∀ e ∈ elements, kind.ofJson (e.toJson false) = .ok e) :
    Kind.allOfJson kind (elements.map (Datum.toJson false)) = .ok elements := by
  induction elements with
  | nil => rfl
  | cons e rest ih =>
    rw [forall_mem_cons] at each
    rw [map_cons, Kind.allOfJson, each.1, ih each.2]
    rfl

/-- A value that is written gives itself back. -/
structure Datum.IsRestored (type : FieldType) (d : Datum) : Prop where
  exact : Json.IsExact (d.toJson false)
  read : type.ofJson (d.toJson false) = .ok d
  filled : d.isVacant = false
  given : d.toJson false ≠ .null
  element : type = .scalar .text ∨ type = .scalar .integer → ofElement (d.toJson false) = d

theorem FieldSpec.ofJson_list (member : spec ∈ kind.fields) (isList : spec.isList = true)
    (each : ∀ e ∈ elements, e.IsRestored spec.type) :
    spec.ofJson ((Datum.list elements).toJson false) = .ok (.list elements) := by
  have notOthers := kind.scalar_of_isList spec member isList
  rw [Datum.toJson, Datum.elementsToJson_eq_map, FieldSpec.ofJson, isList]
  rcases typeIs : spec.type with s | inner
  · have restored : ∀ e ∈ elements, (Datum.ofElement ∘ Datum.toJson false) e = e := by
      intro e member
      refine (each e member).element ?_
      cases s <;> simp_all
    simp only [Scalar.listOfJson, map_map, map_congr_left restored, map_id_fun', id]
  · rw [typeIs] at each
    have read := Kind.allOfJson_toJson fun e member => (each e member).read
    simp only [read]
    rfl

theorem Datum.membersOfJson_membersToJson (among : ∀ spec ∈ specs, spec ∈ kind.fields) :
    Kind.membersOfJson kind
        (membersToJson false kind (specs.map fun spec => (spec.name, values spec))) =
      (specs.filter fun spec => !(values spec).isVacant).map fun spec =>
        (spec.name, spec.ofJson ((values spec).toJson false)) := by
  induction specs with
  | nil => rfl
  | cons spec rest ih =>
    rw [forall_mem_cons] at among
    have known := kind.field?_name spec among.1
    cases vacant : (values spec).isVacant <;>
      simp [membersToJson, Kind.membersOfJson, known, vacant, ih among.2]

theorem Kind.eq_of_name_eq {other : FieldSpec} (member : spec ∈ kind.fields)
    (otherMember : other ∈ kind.fields) (same : spec.name = other.name) : spec = other :=
  Option.some.inj ((kind.field?_name spec member).symm.trans
    (same ▸ kind.field?_name other otherMember))

theorem settleChoices_of_exclusive (among : ∀ spec ∈ specs, spec ∈ kind.fields)
    (distinct : specs.Nodup) (exclusive : kind.Exclusive values) :
    settleChoices kind.fields (specs.map fun spec => (spec.name, values spec)) =
      specs.map fun spec => (spec.name, values spec) := by
  induction specs with
  | nil => rfl
  | cons spec rest ih =>
    rw [forall_mem_cons] at among
    rw [nodup_cons] at distinct
    have known : kind.fields.find? (·.name == spec.name) = some spec :=
      kind.field?_name spec among.1
    simp only [map_cons, settleChoices, known, ih among.2 distinct.2]
    congr 2
    refine ite_eq_right_iff.2 fun overruled => ?_
    -- A later field of the same choice that is set leaves this one unset.
    simp only [any_map, any_eq_true, Function.comp_apply, Bool.and_eq_true,
      mem_filter, Option.bind_some, beq_iff_eq] at overruled
    obtain ⟨other, later, isSet, rival, ⟨isField, chosen, sameChoice⟩, sameName⟩ := overruled
    obtain rfl := Kind.eq_of_name_eq isField (among.2 other later) sameName
    have differs : spec ≠ rival := fun same => distinct.1 (same ▸ later)
    exact (exclusive rival isField spec among.1 differs (sameChoice ▸ chosen) sameChoice
      isSet).symm

theorem Datum.isSet_of_not_isVacant (filled : d.isVacant = false) : d.isSet := by
  cases d with
  | unset => cases filled
  | _ => rfl

theorem Datum.eq_unset (noValue : d.isSet = false) : d = .unset := by
  cases d with
  | unset => rfl
  | _ => cases noValue

/-- What a field of a record needs to give its value back: a vacant one is left out, and any other
is read as it was written. -/
structure FieldSpec.Restores (spec : FieldSpec) (d : Datum) : Prop where
  blank : d.isVacant → spec.blank = d
  exact : Json.IsExact (d.toJson false)
  read : d.isVacant = false → spec.ofJson (d.toJson false) = .ok d

theorem FieldSpec.restores_of_isList (member : spec ∈ kind.fields) (isList : spec.isList = true)
    (each : ∀ e ∈ elements, e.IsRestored spec.type) : spec.Restores (.list elements) where
  blank vacant := by
    have container : spec.container = .list := by simpa [FieldSpec.isList] using isList
    cases elements with
    | nil => simp [FieldSpec.blank, container]
    | cons => simp [Datum.isVacant] at vacant
  exact := by
    rw [Datum.toJson, Datum.elementsToJson_eq_map]
    exact .arr (forall_mem_map.2 fun e member => (each e member).exact)
  read _ := FieldSpec.ofJson_list member isList each

theorem FieldSpec.restores_of_not_isList (one : spec.isList = false)
    (present : spec.container = .single → d.isSet) (restored : d.isSet → d.IsRestored spec.type) :
    spec.Restores d where
  blank vacant := by
    cases isSet : d.isSet with
    | true => exact absurd vacant (Bool.eq_false_iff.1 (restored isSet).filled)
    | false =>
      cases d.eq_unset isSet
      have container : spec.container = .optional := by
        cases is : spec.container <;> simp_all [FieldSpec.isList]
      simp [FieldSpec.blank, container]
  exact := by
    cases isSet : d.isSet with
    | true => exact (restored isSet).exact
    | false => exact d.eq_unset isSet ▸ .null
  read filled := by
    have isSet := Datum.isSet_of_not_isVacant filled
    rw [FieldSpec.ofJson_of_not_isList one (restored isSet).given]
    exact (restored isSet).read

theorem Kind.lookup_name (member : spec ∈ kind.fields) (among : ∀ s ∈ specs, s ∈ kind.fields)
    (read : FieldSpec → Checked Datum) :
    (specs.map fun s => (s.name, read s)).lookup spec.name =
      if spec ∈ specs then some (read spec) else none := by
  induction specs with
  | nil => rfl
  | cons first rest ih =>
    rw [forall_mem_cons] at among
    rw [map_cons, lookup_cons, ih among.2]
    by_cases same : spec = first
    · simp [same]
    · have differs : (spec.name == first.name) = false :=
        beq_false_of_ne fun names => same (Kind.eq_of_name_eq member among.1 names)
      simp [same, differs]

theorem Datum.isExact_membersToJson
    (each : ∀ spec ∈ specs, Json.IsExact ((values spec).toJson false)) :
    ∀ m ∈ membersToJson false kind (specs.map fun spec => (spec.name, values spec)),
      Json.IsExact m.2 := by
  induction specs with
  | nil => simp [membersToJson]
  | cons _ _ ih =>
    rw [forall_mem_cons] at each
    rw [map_cons, membersToJson]
    split
    · exact ih each.2
    · exact forall_mem_cons.2 ⟨each.1, ih each.2⟩

theorem Kind.isRestored_record (each : ∀ spec ∈ kind.fields, spec.Restores (values spec))
    (exclusive : kind.Exclusive values) :
    Datum.IsRestored (.node kind)
      (.record kind (kind.fields.map fun spec => (spec.name, values spec))) where
  exact := by
    rw [Datum.toJson]
    exact .obj (Datum.isExact_membersToJson fun _ member => (each _ member).exact)
  read := by
    rw [Datum.toJson, FieldType.ofJson, Kind.ofJson,
      Datum.membersOfJson_membersToJson fun _ member => member, Kind.assemble]
    refine bind_eq_ok.2 ⟨kind.fields.map fun spec => (spec.name, values spec),
      mapM_eq_ok.2 ?_, congrArg (fun settled => Except.ok (Datum.record kind settled))
        (settleChoices_of_exclusive (fun _ member => member) kind.nodup_fields exclusive)⟩
    rw [forall₂_map_right_iff, forall₂_same]
    intro spec member
    rw [← map_reverse, Kind.lookup_name member fun s filtered =>
      (mem_filter.1 (mem_reverse.1 filtered)).1]
    cases vacant : (values spec).isVacant with
    | false =>
      have isSet : (values spec).isSet := Datum.isSet_of_not_isVacant vacant
      simp only [mem_reverse, mem_filter, member, vacant, Bool.not_false, and_self,
        if_true, (each spec member).read vacant]
      exact congrArg (fun value => Except.ok (spec.name, value)) (if_pos isSet)
    | true =>
      simp only [mem_reverse, mem_filter, vacant, Bool.not_true, Bool.false_eq_true,
        and_false, if_false]
      exact congrArg (fun value => Except.ok (spec.name, value)) ((each spec member).blank vacant)
  filled := rfl
  given := by rw [Datum.toJson]; exact Json.noConfusion
  element := by simp

theorem Datum.Fits.isRestored (fits : Fits type d) : d.IsRestored type := by
  induction fits with
  | text s => exact ⟨.str s, rfl, rfl, Json.noConfusion, fun _ => rfl⟩
  | flag b => exact ⟨.bool b, rfl, rfl, Json.noConfusion, by simp⟩
  | integer n => exact ⟨.int n, rfl, rfl, Json.noConfusion, fun _ => rfl⟩
  | @location l writable =>
    refine ⟨.str l.text, ?_, rfl, Json.noConfusion, by simp⟩
    simp only [toJson, FieldType.ofJson, Scalar.ofJson, Location.ofText_text writable]
    rfl
  | operator o => exact ⟨.int o.number, by cases o <;> rfl, rfl, Json.noConfusion, by simp⟩
  | unit u => exact ⟨.int u.bits, by cases u <;> rfl, rfl, Json.noConfusion, by simp⟩
  | @record _ _ _ present isList _ exclusive single several =>
    refine Kind.isRestored_record (fun spec member => ?_) exclusive
    cases one : spec.isList with
    | false =>
      exact FieldSpec.restores_of_not_isList one (present spec member) (single spec member one)
    | true =>
      rw [isList spec member one]
      exact FieldSpec.restores_of_isList member one (several spec member one)

/-- A record that is written as a text and read back is the same record. -/
theorem ofJson_parse?_compact {kind : Kind} {d : Datum} (fits : d.Fits (.node kind)) :
    (Json.parse? (d.toJson false).compact).map kind.ofJson = some (.ok d) := by
  have restored := fits.isRestored
  rw [Json.parse?_compact restored.exact, Option.map_some, ← restored.read]
  rfl

/-- The size of an array that is left open, at a place that no text wrote. -/
theorem ofJson_parse?_compact_automatic :
    let place : Location := ⟨⟨3, 5⟩, ⟨3, 7⟩, true, true⟩
    let array : Datum := .record .arrayType [("base_type", .unset), ("element_count", .unset),
      ("automatic", .record .empty [("source_location", .unset)]),
      ("source_location", .location place)]
    array.Fits (.node .arrayType) ∧
      (Json.parse? (array.toJson false).compact).map Kind.arrayType.ofJson = some (.ok array) := by
  intro place array
  have noList : ∀ kind ∈ [Kind.empty, .arrayType], ∀ spec ∈ kind.fields, ¬spec.isList := by decide
  have empty : (Datum.record .empty [("source_location", .unset)]).Fits (.node .empty) :=
    @Datum.Fits.record .empty (fun _ => .unset) (by simp [Datum.isSet]) (by decide)
      (fun spec member isList => absurd isList (noList _ (by decide) spec member))
      (by simp [Datum.elements]) (by simp [Kind.Exclusive])
  have fits : array.Fits (.node .arrayType) := by
    refine @Datum.Fits.record .arrayType
      (fun spec => if spec.name = "automatic" then .record .empty [("source_location", .unset)]
        else if spec.name = "source_location" then .location place else .unset) ?_ (by decide)
      (fun spec member isList => absurd isList (noList _ (by decide) spec member))
      (fun spec member isList => absurd isList (noList _ (by decide) spec member)) ?_
    · simpa [Kind.fields, Kind.node, Kind.member, Kind.place, Kind.scalar, Datum.isSet, empty]
        using fun _ => Datum.Fits.location ⟨by decide, by decide, by decide⟩
    · simp [Kind.Exclusive, Kind.fields, Kind.node, Kind.member, Kind.place, Kind.scalar,
        Datum.isSet]
  exact ⟨fits, ofJson_parse?_compact fits⟩

end IR

end BinaryLayout
