import BinaryLayout.LR.Mark
import BinaryLayout.Proofs.LR.Steps

/-!
# What notes change

Notes are made by examples, one after the other.  `Parser.Extends` says what they leave alone: the
table, and every note that was made before.

Main statement: whatever notes are made, every input is parsed as before but for the note on its
error, and an example has its note from then on.
-/

namespace BinaryLayout.LR

/-- An example of an error: an input, where the error is found in it, and the note to make. -/
structure Mark where
  input : List Lexeme
  place : Option Lexeme
  code : String

/-- The terminal at which an input was rejected; the wildcard is none. -/
def ParseError.terminal? (e : ParseError) : Option String :=
  match e.found with
  | some l => l.symbol?
  | none => some endSymbol

/-- What a parse comes to, apart from the note on an error. -/
def bare (r : Checked (Except ParseError Tree)) : Checked (Except ParseError Tree) :=
  r.map (·.mapError fun e => { e with code := none })

namespace Parser

variable {p q r : Parser} {m : Mark} {marks : List Mark} {input : List Lexeme} {e : ParseError}
  {state : Nat} {terminal code : String} {c : Configuration} {terminal? : Option String}
  {result : Checked (Except ParseError Tree)}

/-- The parser after a mark, which is as before if the mark is refused or the parse fails. -/
def marked (p : Parser) (m : Mark) : Parser :=
  match p.mark m.input m.place m.code with
  | .ok (.ok q) => q
  | _ => p

/-- There is a note on a state and a terminal, or on a state for terminals without one. -/
def Records (p : Parser) (state : Nat) : Option String → String → Prop
  | some terminal, code => p.notes.specific.lookup (state, terminal) = some code
  | none, code => p.notes.general.lookup state = some code

/-- A parser with the same table and, besides others, the same notes. -/
structure Extends (p q : Parser) : Prop where
  table : q.table = p.table
  kept : ∀ state terminal? code, p.Records state terminal? code → q.Records state terminal? code

theorem Extends.refl (p : Parser) : p.Extends p :=
  ⟨rfl, fun _ _ _ => id⟩

theorem Extends.trans (first : p.Extends q) (second : q.Extends r) : p.Extends r :=
  ⟨second.table.trans first.table,
    fun state terminal? code known => second.kept _ _ _ (first.kept state terminal? code known)⟩

/-! ## Making notes -/

theorem lookup_cons_of_some {α : Type} [BEq α] [LawfulBEq α] {list : List (α × String)} {a b : α}
    {old : String} (unknown : list.lookup a = none) (known : list.lookup b = some old) :
    ((a, code) :: list).lookup b = some old := by
  have apart : (b == a) = false := by
    refine beq_false_of_ne fun same => ?_
    cases unknown.symm.trans (same ▸ known)
  rwa [List.lookup_cons, apart]

/-- The note on a state, or on a terminal in it. -/
theorem note_eq_ok
    (run : terminal?.elim (p.noteGeneral state) (p.noteSpecific state) code = .ok q) :
    p.Extends q ∧ q.Records state terminal? code := by
  cases terminal?
  all_goals
    simp only [Option.elim, noteGeneral, noteSpecific] at run
    split at run
    · rename_i known
      split at run
      · rename_i same
        cases run
        exact ⟨.refl p, same ▸ known⟩
      · cases run
    · rename_i unknown
      cases run
      refine ⟨⟨rfl, fun _ terminal? _ known => ?_⟩, List.lookup_cons_self⟩
      cases terminal? <;> first | exact known | exact lookup_cons_of_some unknown known

theorem record_eq_ok {place : Option Lexeme} (run : p.record e place code = .ok q) :
    p.Extends q ∧ q.Records e.state e.terminal? code := by
  cases place with
  | none =>
    simp only [record] at run
    split at run
    · rename_i atEnd
      have isEnd : e.terminal? = some endSymbol := by
        unfold ParseError.foundSymbol at atEnd
        rw [ParseError.terminal?]
        cases found : e.found with
        | none => rfl
        | some l =>
          rw [found] at atEnd
          cases l with
          | token => exact congrArg some atEnd
          | wildcard => exact absurd atEnd (by decide)
      rw [isEnd]
      exact @note_eq_ok _ _ _ _ (some _) run
    · cases run
  | some l =>
    simp only [record] at run
    split at run
    · rename_i found
      rw [ParseError.terminal?, found]
      cases l with
      | token => exact @note_eq_ok _ _ _ _ (some _) run
      | wildcard => exact @note_eq_ok _ _ _ _ none run
    · cases run

/-- A note is made only on the error that the example leads to. -/
theorem mark_eq_ok (run : p.mark m.input m.place m.code = .ok (.ok q)) :
    ∃ e, p.parse m.input = .ok (.error e) ∧ p.Extends q ∧ q.Records e.state e.terminal? m.code := by
  unfold mark at run
  cases parsed : p.parse m.input with
  | error =>
    rw [parsed] at run
    cases run
  | ok result =>
    rw [parsed] at run
    cases result with
    | ok => cases run
    | error e => exact ⟨e, rfl, record_eq_ok (Except.ok.inj run)⟩

theorem extends_marked (p : Parser) (m : Mark) : p.Extends (p.marked m) := by
  unfold marked
  split
  · rename_i run
    rcases mark_eq_ok run with ⟨_, _, kept, _⟩
    exact kept
  · exact .refl p

theorem extends_foldl (p : Parser) (marks : List Mark) : p.Extends (marks.foldl marked p) := by
  induction marks generalizing p with
  | nil => exact .refl p
  | cons m _ ih => exact (p.extends_marked m).trans (ih (p.marked m))

/-! ## Parsing with notes -/

theorem step_of_table (same : q.table = p.table) (proceeds : ∀ e, p.step c ≠ .rejected e) :
    q.step c = p.step c := by
  have row (state : Nat) : q.row state = p.row state := by rw [row, row, same]
  have action : q.action? c = p.action? c := by rw [action?, action?, row]
  cases found : p.action? c with
  | none => exact absurd (step_of_no_action found) (proceeds _)
  | some a => cases a <;> simp only [step, action, found, reduce, row]

theorem Ends.of_table (same : q.table = p.table) (ends : p.Ends c result) :
    ∃ other, q.Ends c other ∧ bare other = bare result := by
  induction ends with
  | accepted step =>
    exact ⟨_, .accepted ((step_of_table same (by simp [step])).trans step), rfl⟩
  | failed step => exact ⟨_, .failed ((step_of_table same (by simp [step])).trans step), rfl⟩
  | next step _ ih =>
    rcases ih with ⟨other, ends, alike⟩
    exact ⟨other, .next ((step_of_table same (by simp [step])).trans step) ends, alike⟩
  | @rejected c e step =>
    rcases step_eq_rejected step with ⟨nothing, rfl⟩
    have action : q.action? c = none := by rwa [action?, row, same]
    refine ⟨_, .rejected (step_of_no_action action), ?_⟩
    simp only [bare, Except.map, Except.mapError, reject, expected, row, same]

theorem bare_parse (same : q.table = p.table) (input : List Lexeme) :
    bare (q.parse input) = bare (p.parse input) := by
  unfold parse
  cases run : p.run ⟨[], input, 0⟩ with
  | some result =>
    rcases (run_eq_some.1 run).of_table same with ⟨other, ends, alike⟩
    rw [run_eq_some.2 ends]
    exact alike
  | none =>
    cases other : q.run ⟨[], input, 0⟩ with
    | none => rfl
    | some =>
      rcases (run_eq_some.1 other).of_table same.symm with ⟨_, ends, _⟩
      cases run.symm.trans (run_eq_some.2 ends)

theorem parse_eq_error (same : q.table = p.table) (parsed : p.parse input = .ok (.error e)) :
    ∃ code, q.parse input = .ok (.error { e with code }) := by
  have alike := bare_parse same input
  rw [parsed] at alike
  cases again : q.parse input with
  | error => simp [again, bare, Except.map] at alike
  | ok result =>
    cases result with
    | ok => simp [again, bare, Except.map, Except.mapError] at alike
    | error other =>
      refine ⟨other.code, ?_⟩
      simp only [again, bare, Except.map, Except.mapError, Except.ok.injEq, Except.error.injEq,
        ParseError.mk.injEq, true_and] at alike
      rcases alike with ⟨index, found, state, expected⟩
      rw [← index, ← found, ← state, ← expected]

theorem Ends.code_eq_note? (ends : p.Ends c result) (isError : result = .ok (.error e)) :
    e.code = p.note? e.state e.terminal? := by
  induction ends with
  | accepted | failed => cases isError
  | next _ _ ih => exact ih isError
  | @rejected c _ step =>
    cases isError
    rcases step_eq_rejected step with ⟨_, rfl⟩
    rcases c with ⟨_, _ | _, _⟩ <;> rfl

theorem Records.note?_eq_some (known : p.Records state terminal? code) :
    p.note? state terminal? = some code := by
  cases terminal? with
  | none => exact known
  | some terminal =>
    have found : p.notes.specific.lookup (state, terminal) = some code := known
    simp [note?, found]

theorem note?_eq_some_iff :
    p.note? state terminal? = some code ↔
      p.Records state terminal? code ∨
        (∀ other, ¬ p.Records state terminal? other) ∧ p.Records state none code := by
  refine ⟨fun noted => ?_, ?_⟩
  · unfold note? at noted
    split at noted
    · rename_i found
      rcases Option.bind_eq_some_iff.1 found with ⟨terminal, rfl, known⟩
      exact .inl (known.trans noted)
    · rename_i nothing
      cases terminal? with
      | none => exact .inl noted
      | some terminal =>
        refine .inr ⟨fun other known => ?_, noted⟩
        cases nothing.symm.trans known
  · rintro (known | ⟨unknown, general⟩)
    · exact known.note?_eq_some
    · cases terminal? with
      | none => exact general
      | some terminal =>
        have nothing : p.notes.specific.lookup (state, terminal) = none :=
          Option.eq_none_iff_forall_ne_some.2 unknown
        rw [note?, Option.bind_some, nothing]
        exact general

end Parser

end BinaryLayout.LR
