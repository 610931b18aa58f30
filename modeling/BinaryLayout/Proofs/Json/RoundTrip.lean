import BinaryLayout.Json.Printer
import BinaryLayout.Json.Reader
import Mathlib.Data.List.Basic

/-!
# What is printed as JSON is read back

The digits of a number give it back, and so do the escapes of a string; every value that is
printed on one line and holds no fractions is the one that reading the line gives.
-/

namespace BinaryLayout

open List

namespace Text

theorem hexValue?_of_isDigit {c : Char} (isDigit : c.isDigit = true) :
    hexValue? c = some (c.toNat - '0'.toNat) := by
  simp only [Char.isDigit, Bool.and_eq_true, decide_eq_true_eq] at isDigit
  exact if_pos isDigit

theorem isDigit_of_mem_toDigits {n : Nat} {c : Char} (member : c ∈ Nat.toDigits 10 n) :
    c.isDigit = true :=
  Nat.isDigit_of_mem_toDigits (by decide) (by decide) member

theorem digitsValue_toDigits (n : Nat) : digitsValue 10 0 (Nat.toDigits 10 n) = n := by
  have same : digitsValue 10 0 (Nat.toDigits 10 n) =
      Nat.ofDigitChars 10 (Nat.toDigits 10 n) 0 := by
    rw [Nat.ofDigitChars_eq_foldl, digitsValue]
    refine foldl_ext _ _ _ fun m c member => ?_
    rw [hexValue?_of_isDigit (isDigit_of_mem_toDigits member)]
    rfl
  rw [same, Nat.ofDigitChars_toDigits (by decide) (by decide)]

/-- Only the number zero is written with a zero in front. -/
theorem head?_toDigits_ne {n : Nat} (positive : 0 < n) :
    (Nat.toDigits 10 n).head? ≠ some '0' := by
  induction n using Nat.strongRecOn with
  | ind n ih =>
    by_cases small : n < 10
    · rw [Nat.toDigits_of_lt_base small, head?_cons, Ne, Option.some.injEq, Nat.digitChar_eq_zero]
      exact Nat.ne_of_gt positive
    · rw [Nat.toDigits_of_base_le (by decide) (by omega),
        head?_append_of_ne_nil _ Nat.toDigits_ne_nil]
      exact ih (n / 10) (by omega) (by omega)

theorem hexValue?_digitChar : ∀ {d : Nat}, d < 16 → hexValue? (Nat.digitChar d) = some d := by
  decide

theorem hexadecimal_succ (width n : Nat) :
    (hexadecimal (width + 2) n).toList =
      (hexadecimal (width + 1) (n / 16)).toList ++ [Nat.digitChar (n % 16)] := by
  rcases Nat.lt_or_ge n 16 with small | large
  · simp only [hexadecimal, String.toList_ofList, Nat.toDigits_of_lt_base small,
      Nat.div_eq_of_lt small, Nat.mod_eq_of_lt small, Nat.toDigits_zero]
    exact congrArg (· ++ _) replicate_succ'
  · simp only [hexadecimal, String.toList_ofList, Nat.toDigits_of_base_le (by decide) large,
      length_append, length_singleton, append_assoc]
    rw [show width + 2 = width + 1 + 1 from rfl, Nat.add_sub_add_right]

end Text

namespace Json

variable {n : Nat} {read rest : List Char} {j : Json} {elements : List Json}
  {members : List (String × Json)}

/-- A unit of sixteen bits is escaped with four digits, which give it back. -/
theorem toList_unitEscape (bounded : n < 0x10000) :
    ∃ a b c d, (unitEscape n).toList = ['\\', 'u', a, b, c, d] ∧ hexQuad? a b c d = some n := by
  have top : n / 16 / 16 / 16 < 16 := by omega
  refine ⟨Nat.digitChar (n / 16 / 16 / 16), Nat.digitChar (n / 16 / 16 % 16),
    Nat.digitChar (n / 16 % 16), Nat.digitChar (n % 16), ?_, ?_⟩
  · rw [unitEscape, String.toList_append, Text.hexadecimal_succ, Text.hexadecimal_succ,
      Text.hexadecimal_succ]
    simp [Text.hexadecimal, Nat.toDigits_of_lt_base top]
  · simp only [hexQuad?, Text.hexValue?_digitChar top,
      Text.hexValue?_digitChar (Nat.mod_lt _ (by decide : 0 < 16)), Option.bind_eq_bind,
      Option.bind_some, Option.pure_def, Option.some.injEq]
    omega

/-! ## Strings -/

/-- An escaped unit at the start of a text has its four digits. -/
def IsWellEscaped (s : List Char) : Prop :=
  ∀ a b c d rest, s = '\\' :: 'u' :: a :: b :: c :: d :: rest → (hexQuad? a b c d).isSome

theorem readString_unit (bounded : n < 0x10000) (whole : ¬ (0xd800 ≤ n ∧ n < 0xe000))
    (follows : IsWellEscaped rest) :
    readString read ((unitEscape n).toList ++ rest) = readString (Char.ofNat n :: read) rest := by
  rcases toList_unitEscape bounded with ⟨a, b, c, d, digits, value⟩
  have unitIs : ofUnit n = Char.ofNat n := if_neg whole
  rw [digits, ← unitIs]
  by_cases next : ∃ e f g h tail, rest = '\\' :: 'u' :: e :: f :: g :: h :: tail
  · rcases next with ⟨e, f, g, h, tail, rfl⟩
    rcases Option.isSome_iff_exists.1 (follows _ _ _ _ _ rfl) with ⟨m, low⟩
    simp only [cons_append, nil_append, readString, value, low]
    exact if_neg fun pair => whole ⟨pair.1, by omega⟩
  · simp only [not_exists] at next
    simp only [cons_append, nil_append, readString.eq_4 _ _ _ _ _ _ next, value]

theorem readString_pair (large : 0x10000 ≤ n) (bounded : n < 0x110000) :
    readString read ((unitEscape (0xd800 + (n - 0x10000) / 0x400) ++
      unitEscape (0xdc00 + (n - 0x10000) % 0x400)).toList ++ rest) =
      readString (Char.ofNat n :: read) rest := by
  rcases toList_unitEscape (show 0xd800 + (n - 0x10000) / 0x400 < 0x10000 by omega)
    with ⟨a, b, c, d, highDigits, high⟩
  rcases toList_unitEscape (show 0xdc00 + (n - 0x10000) % 0x400 < 0x10000 by omega)
    with ⟨e, f, g, h, lowDigits, low⟩
  have joined : joinSurrogates (0xd800 + (n - 0x10000) / 0x400)
      (0xdc00 + (n - 0x10000) % 0x400) = Char.ofNat n :=
    congrArg Char.ofNat (by omega)
  simp only [String.toList_append, highDigits, lowDigits, cons_append, nil_append,
    readString, high, low]
  rw [if_pos (by omega), joined]

/-- A character is written as it is, with a letter of its own, or as one or two units. -/
theorem escapeChar_cases (c : Char) :
    (∃ letter, (escapeChar c).toList = ['\\', letter] ∧ letter ≠ 'u' ∧
        unescape? letter = some c) ∨
      ((escapeChar c).toList = [c] ∧ c ≠ '"' ∧ c ≠ '\\' ∧ ¬ c.toNat < 0x20) ∨
      (c.toNat < 0x10000 ∧ escapeChar c = unitEscape c.toNat) ∨
      (0x10000 ≤ c.toNat ∧ escapeChar c =
        unitEscape (0xd800 + (c.toNat - 0x10000) / 0x400) ++
          unitEscape (0xdc00 + (c.toNat - 0x10000) % 0x400)) := by
  have ofCode {n : Nat} (same : c.toNat = n) : c = Char.ofNat n := by
    rw [← same, Char.ofNat_toNat]
  unfold escapeChar
  dsimp only
  split
  · exact .inl ⟨'"', rfl, by decide, by subst_vars; rfl⟩
  split
  · exact .inl ⟨'\\', rfl, by decide, by subst_vars; rfl⟩
  split
  · exact .inl ⟨'n', rfl, by decide, by subst_vars; rfl⟩
  split
  · exact .inl ⟨'r', rfl, by decide, by subst_vars; rfl⟩
  split
  · exact .inl ⟨'t', rfl, by decide, by subst_vars; rfl⟩
  split
  · exact .inl ⟨'b', rfl, by decide, congrArg some (ofCode ‹_›).symm⟩
  split
  · exact .inl ⟨'f', rfl, by decide, congrArg some (ofCode ‹_›).symm⟩
  split
  · exact .inr (.inl ⟨String.toList_singleton c, ‹_›, ‹_›, by omega⟩)
  split
  · exact .inr (.inr (.inl ⟨‹_›, rfl⟩))
  · exact .inr (.inr (.inr ⟨by omega, rfl⟩))

theorem isWellEscaped_unit (bounded : n < 0x10000) :
    IsWellEscaped ((unitEscape n).toList ++ rest) := by
  rcases toList_unitEscape bounded with ⟨a, b, c, d, digits, value⟩
  rintro _ _ _ _ _ same
  rw [digits] at same
  cases same
  exact Option.isSome_iff_exists.2 ⟨n, value⟩

theorem isWellEscaped_escapeChar (c : Char) (rest : List Char) :
    IsWellEscaped ((escapeChar c).toList ++ rest) := by
  have scalar : c.toNat < 0xd800 ∨ 0xdfff < c.toNat ∧ c.toNat < 0x110000 := c.valid
  rcases escapeChar_cases c with ⟨letter, written, notUnit, _⟩ | ⟨written, _, notEscape, _⟩ |
    ⟨bounded, written⟩ | ⟨large, written⟩ <;> rw [written]
  · rintro _ _ _ _ _ ⟨⟩
    exact (notUnit rfl).elim
  · rintro _ _ _ _ _ ⟨⟩
    exact (notEscape rfl).elim
  · exact isWellEscaped_unit bounded
  · rw [String.toList_append, append_assoc]
    exact isWellEscaped_unit (by omega)

theorem readString_escapeChar (c : Char) (read : List Char) (follows : IsWellEscaped rest) :
    readString read ((escapeChar c).toList ++ rest) = readString (c :: read) rest := by
  have code : Char.ofNat c.toNat = c := Char.ofNat_toNat c
  have scalar : c.toNat < 0xd800 ∨ 0xdfff < c.toNat ∧ c.toNat < 0x110000 := c.valid
  rcases escapeChar_cases c with ⟨letter, written, notUnit, meant⟩ |
    ⟨written, noQuote, notEscape, printable⟩ | ⟨bounded, written⟩ | ⟨large, written⟩ <;>
    rw [written]
  · simp [readString.eq_5, notUnit, meant]
  · simp [readString.eq_6, notEscape, printable]
  · rw [readString_unit bounded (by omega) follows, code]
  · rw [readString_pair large (by omega), code]

def escaped (s : List Char) : List Char :=
  s.flatMap fun c => (escapeChar c).toList

theorem toList_quote (s : String) : (quote s).toList = '"' :: (escaped s.toList ++ ['"']) := by
  have grown (cs : List Char) (text : String) :
      (cs.foldl (fun text c => text ++ escapeChar c) text).toList = text.toList ++ escaped cs := by
    induction cs generalizing text with
    | nil => simp [escaped]
    | cons c rest ih => simp [escaped, ih]
  simp [quote, grown]

theorem isWellEscaped_escaped (s rest : List Char) :
    IsWellEscaped (escaped s ++ '"' :: rest) := by
  cases s with
  | nil => rintro _ _ _ _ _ ⟨⟩
  | cons c s =>
    rw [escaped, flatMap_cons, append_assoc]
    exact isWellEscaped_escapeChar c _

theorem readString_escaped (s read rest : List Char) :
    readString read (escaped s ++ '"' :: rest) = some (read.reverse ++ s, rest) := by
  induction s generalizing read with
  | nil => simp [escaped, readString]
  | cons c s ih =>
    have step := readString_escapeChar c read (isWellEscaped_escaped s rest)
    rw [escaped, flatMap_cons, append_assoc]
    rw [escaped] at step ih
    rw [step, ih, reverse_cons, append_assoc]
    rfl

/-! ## Numbers -/

/-- What can follow a value: nothing, or what separates or closes. -/
inductive Stops : List Char → Prop
  | nothing : Stops []
  | comma (rest : List Char) : Stops (',' :: rest)
  | bracket (rest : List Char) : Stops (']' :: rest)
  | brace (rest : List Char) : Stops ('\x7d' :: rest)

theorem readNumber_digits (n : Nat) (stops : Stops rest) :
    readNumber (Nat.toDigits 10 n ++ rest) = some (.int n, rest) ∧
      readNumber ('-' :: (Nat.toDigits 10 n ++ rest)) = some (.int (-n), rest) := by
  have value := Text.digitsValue_toDigits n
  have areDigits (c : Char) (member : c ∈ Nat.toDigits 10 n) := Text.isDigit_of_mem_toDigits member
  have taken : (Nat.toDigits 10 n ++ rest).takeWhile Char.isDigit = Nat.toDigits 10 n := by
    rw [takeWhile_append_of_pos areDigits]
    cases stops <;> exact append_nil _
  have left : (Nat.toDigits 10 n ++ rest).dropWhile Char.isDigit = rest := by
    rw [dropWhile_append_of_pos areDigits]
    cases stops <;> rfl
  rcases Nat.eq_zero_or_pos n with rfl | positive
  · cases stops <;> exact ⟨rfl, rfl⟩
  · have lead := Text.head?_toDigits_ne positive
    rcases digitsAre : Nat.toDigits 10 n with _ | ⟨d, ds⟩
    · exact (Nat.toDigits_ne_nil digitsAre).elim
    · rw [digitsAre] at value taken left areDigits lead
      have noSign : d ≠ '-' := by
        rintro rfl
        exact absurd (areDigits '-' mem_cons_self) (by decide)
      have noZero : d ≠ '0' := fun same => lead (congrArg some same)
      rw [cons_append] at taken left ⊢
      generalize ds ++ rest = text at taken left ⊢
      constructor <;> cases stops <;> simp [readNumber, taken, left, noSign, noZero, value]

theorem readNumber_decimal (n : Int) (stops : Stops rest) :
    readNumber ((Text.decimal n).toList ++ rest) = some (.int n, rest) := by
  cases n with
  | ofNat m => simpa [Text.decimal] using (readNumber_digits m stops).1
  | negSucc m => simpa [Text.decimal, Int.negSucc_eq] using (readNumber_digits (m + 1) stops).2

/-! ## Values -/

/-- A value without fractions. -/
inductive IsExact : Json → Prop
  | null : IsExact .null
  | bool (b : Bool) : IsExact (.bool b)
  | int (n : Int) : IsExact (.int n)
  | str (s : String) : IsExact (.str s)
  | arr {elements : List Json} (each : ∀ e ∈ elements, IsExact e) : IsExact (.arr elements)
  | obj {members : List (String × Json)} (each : ∀ m ∈ members, IsExact m.2) :
      IsExact (.obj members)

/-- The characters of a value on one line. -/
def spelling (j : Json) : List Char :=
  j.compact.toList

/-- The characters of a member of an object. -/
def memberSpelling (m : String × Json) : List Char :=
  (quote m.1).toList ++ ':' :: ' ' :: m.2.spelling

/-- What follows the first of several parts. -/
def further {α : Type} (spell : α → List Char) (rest : List α) : List Char :=
  rest.flatMap fun a => ',' :: ' ' :: spell a

/-- A value is printed the same after every text, and read back before everything that can
follow it. -/
structure IsPrinted (j : Json) : Prop where
  appends : ∀ text, (writeTo text j).toList = text.toList ++ j.spelling
  opens : ∃ c rest, j.spelling = c :: rest ∧ isSpace c = false ∧ c ≠ ']'
  reads : ∀ {fuel rest}, Stops rest → j.spelling.length ≤ fuel →
    readValue fuel (j.spelling ++ rest) = some (j, rest)

theorem IsPrinted.skips (printed : IsPrinted j) (rest : List Char) :
    skipSpace (j.spelling ++ rest) = j.spelling ++ rest := by
  rcases printed.opens with ⟨c, _, spelled, noSpace, _⟩
  rw [spelled]
  exact dropWhile_cons_of_neg (by simp [noSpace])

theorem toList_writeElements (each : ∀ e ∈ elements, IsPrinted e) (text : String) :
    (writeElements text elements).toList = text.toList ++ further spelling elements := by
  induction elements generalizing text with
  | nil => simp [writeElements, further]
  | cons e rest ih =>
    rw [forall_mem_cons] at each
    simp [writeElements, ih each.2, each.1.appends, further]

theorem toList_writeMembers (each : ∀ m ∈ members, IsPrinted m.2) (text : String) :
    (writeMembers text members).toList = text.toList ++ further memberSpelling members := by
  induction members generalizing text with
  | nil => simp [writeMembers, further]
  | cons m rest ih =>
    rw [forall_mem_cons] at each
    simp [writeMembers, ih each.2, each.1.appends, further, memberSpelling]

/-- A reader for parts between commas takes a part, and then looks for more or closes. -/
structure ReadsPart {α : Type} (spell : α → List Char) (close : Char) (build : List α → Json)
    (read : Nat → List α → List Char → Option (Json × List Char)) (a : α) : Prop where
  skips : ∀ rest, skipSpace (spell a ++ rest) = spell a ++ rest
  next : ∀ {fuel done rest}, (spell a).length ≤ fuel →
    read (fuel + 1) done (spell a ++ ',' :: ' ' :: rest) = read fuel (a :: done) (skipSpace rest)
  last : ∀ {fuel done rest}, (spell a).length ≤ fuel →
    read (fuel + 1) done (spell a ++ close :: rest) = some (build (a :: done).reverse, rest)

theorem read_further {α : Type} {spell : α → List Char} {close : Char} {build : List α → Json}
    {read : Nat → List α → List Char → Option (Json × List Char)} {first : α} {parts : List α}
    {fuel : Nat} (done : List α) (rest : List Char)
    (each : ∀ a ∈ first :: parts, ReadsPart spell close build read a)
    (enough : (spell first ++ further spell parts).length < fuel) :
    read fuel done (spell first ++ (further spell parts ++ close :: rest)) =
      some (build (done.reverse ++ first :: parts), rest) := by
  induction parts generalizing first done fuel with
  | nil =>
    rcases fuel with _ | fuel
    · cases enough
    · exact ((each first mem_cons_self).last (by simp at enough; omega)).trans (by simp)
  | cons a parts ih =>
    rcases fuel with _ | fuel
    · cases enough
    · rw [forall_mem_cons] at each
      have enoughLeft : (spell a ++ further spell parts).length < fuel := by
        simp [further] at enough ⊢
        omega
      have spelled : further spell (a :: parts) ++ close :: rest =
          ',' :: ' ' :: (spell a ++ (further spell parts ++ close :: rest)) := by
        simp [further]
      rw [spelled, each.1.next (by simp at enough; omega),
        (each.2 a mem_cons_self).skips, ih _ each.2 enoughLeft]
      simp

theorem IsPrinted.readsElement {j : Json} (printed : IsPrinted j) :
    ReadsPart spelling ']' .arr readElements j where
  skips := printed.skips
  next enough := by
    rw [readElements.eq_2, printed.reads (.comma _) enough]
    rfl
  last enough := by
    rw [readElements.eq_2, printed.reads (.bracket _) enough]
    rfl

theorem IsPrinted.readsMember {m : String × Json} (printed : IsPrinted m.2) :
    ReadsPart memberSpelling '\x7d' .obj readMembers m := by
  have spelled (rest : List Char) : memberSpelling m ++ rest =
      '"' :: (escaped m.1.toList ++ '"' :: ':' :: ' ' :: (m.2.spelling ++ rest)) := by
    simp [memberSpelling, toList_quote]
  have value {fuel : Nat} {rest : List Char} (stops : Stops rest)
      (enough : (memberSpelling m).length ≤ fuel) :
      readValue fuel (skipSpace (' ' :: (m.2.spelling ++ rest))) = some (m.2, rest) :=
    (congrArg _ (printed.skips rest)).trans
      (printed.reads stops (by simp [memberSpelling] at enough; omega))
  have name : String.ofList ([].reverse ++ m.1.toList) = m.1 := by simp
  have colon (rest : List Char) : skipSpace (':' :: rest) = ':' :: rest := rfl
  refine ⟨fun rest => ?_, fun enough => ?_, fun enough => ?_⟩
  · rw [spelled]
    rfl
  · rw [spelled, readMembers.eq_2, readString_escaped]
    simp only [colon, name, value (.comma _) enough]
    rfl
  · rw [spelled, readMembers.eq_2, readString_escaped]
    simp only [colon, name, value (.brace _) enough]
    rfl

theorem IsPrinted.of_cons {j : Json} (c : Char) (cs : List Char)
    (appends : ∀ text, (writeTo text j).toList = text.toList ++ c :: cs)
    (noSpace : isSpace c = false) (opens : c ≠ ']')
    (reads : ∀ {fuel rest}, Stops rest → cs.length ≤ fuel →
      readValue (fuel + 1) (c :: (cs ++ rest)) = some (j, rest)) : IsPrinted j := by
  have spelled : j.spelling = c :: cs := appends ""
  refine ⟨fun text => spelled ▸ appends text, ⟨c, cs, spelled, noSpace, opens⟩, ?_⟩
  intro fuel rest stops enough
  rw [spelled] at enough ⊢
  rcases fuel with _ | fuel
  · cases enough
  · exact reads stops (Nat.le_of_succ_le_succ enough)

theorem isPrinted_int (n : Int) : IsPrinted (.int n) := by
  have opens : ∃ c cs, (Text.decimal n).toList = c :: cs ∧ (c.isDigit = true ∨ c = '-') := by
    cases n with
    | ofNat m =>
      rcases digits : Nat.toDigits 10 m with _ | ⟨d, ds⟩
      · exact (Nat.toDigits_ne_nil digits).elim
      · exact ⟨d, ds, by simp [Text.decimal, digits],
          .inl (Text.isDigit_of_mem_toDigits (digits ▸ mem_cons_self))⟩
    | negSucc m => exact ⟨_, _, String.toList_ofList, .inr rfl⟩
  rcases opens with ⟨c, cs, written, lead⟩
  have differs {other : Char} (no : ¬ (other.isDigit = true ∨ other = '-')) : c ≠ other :=
    fun same => no (same ▸ lead)
  have notSpace : isSpace c = false := by
    simp [isSpace, differs]
  refine .of_cons c cs (fun text => by simp [writeTo, written]) notSpace (differs (by decide)) ?_
  intro fuel rest stops _
  have read := readNumber_decimal n stops
  rw [written, cons_append] at read
  rw [readValue.eq_8, read] <;> exact fun _ same => differs (by decide) (List.cons.inj same).1

theorem isPrinted_arr (each : ∀ e ∈ elements, IsPrinted e) : IsPrinted (.arr elements) := by
  cases elements with
  | nil => exact .of_cons '[' [']'] (fun text => by simp [writeTo]) rfl (by decide) fun _ _ => rfl
  | cons first rest =>
    refine .of_cons '[' (first.spelling ++ (further spelling rest ++ [']'])) (fun text => ?_) rfl
      (by decide) fun {fuel tail} _ enough => ?_
    · rw [forall_mem_cons] at each
      simp [writeTo, toList_writeElements each.2, each.1.appends]
    · have read := read_further [] tail (fun e member => (each e member).readsElement)
        (show _ < fuel by simp at enough ⊢; omega)
      have printed := each first mem_cons_self
      rcases printed.opens with ⟨c, cs, spelled, _, opens⟩
      rw [readValue.eq_6, append_assoc, append_assoc, printed.skips, singleton_append]
      split
      · next same =>
          rw [spelled] at same
          cases same
          exact (opens rfl).elim
      · exact read

theorem isPrinted_obj (each : ∀ m ∈ members, IsPrinted m.2) : IsPrinted (.obj members) := by
  cases members with
  | nil =>
    exact .of_cons '\x7b' ['\x7d'] (fun text => by simp [writeTo]) rfl (by decide) fun _ _ => rfl
  | cons first rest =>
    refine .of_cons '\x7b' (memberSpelling first ++ (further memberSpelling rest ++ ['\x7d']))
      (fun text => ?_) rfl (by decide) fun {fuel tail} _ enough => ?_
    · rw [forall_mem_cons] at each
      simp [writeTo, toList_writeMembers each.2, each.1.appends, memberSpelling]
    · have read := read_further [] tail (fun m member => (each m member).readsMember)
        (show _ < fuel by simp at enough ⊢; omega)
      rw [readValue.eq_7, append_assoc, append_assoc, singleton_append,
        (each first mem_cons_self).readsMember.skips]
      split
      · next same =>
          rw [memberSpelling, toList_quote] at same
          cases same
      · exact read

theorem isPrinted_of_isExact (exact : IsExact j) : IsPrinted j := by
  induction exact with
  | null =>
    exact .of_cons 'n' ['u', 'l', 'l'] (fun text => by simp [writeTo]) rfl (by decide)
      fun _ _ => rfl
  | bool b =>
    cases b with
    | false =>
      exact .of_cons 'f' ['a', 'l', 's', 'e'] (fun text => by simp [writeTo]) rfl (by decide)
        fun _ _ => rfl
    | true =>
      exact .of_cons 't' ['r', 'u', 'e'] (fun text => by simp [writeTo]) rfl (by decide)
        fun _ _ => rfl
  | int n => exact isPrinted_int n
  | str s =>
    refine .of_cons '"' (escaped s.toList ++ ['"']) (fun text => by simp [writeTo, toList_quote])
      rfl (by decide) fun _ _ => ?_
    simp [readValue, readString_escaped]
  | arr _ each => exact isPrinted_arr each
  | obj _ each => exact isPrinted_obj each

theorem parse?_compact (exact : IsExact j) : parse? j.compact = some j := by
  have printed := isPrinted_of_isExact exact
  have skipped := printed.skips []
  have read := printed.reads .nothing (show j.spelling.length ≤ 2 * j.spelling.length + 2 by omega)
  rw [append_nil] at skipped read
  rw [spelling] at skipped read
  simp only [parse?, skipped, read]
  rfl

end Json
end BinaryLayout
