import BinaryLayout.Language.Meaning
import BinaryLayout.Proofs.Token.Words

/-!
# Texts between quotes

A text is written between quotes with its quotes, backslashes and line feeds escaped.  The line that
this gives is one token, and the text is what that token stands for.
-/

namespace BinaryLayout.Token

open List Language
open LR (Token)

variable {s : List Char}

/-- How a character of a text is written between quotes. -/
def escape (c : Char) : List Char :=
  if c = '\n' then ['\\', 'n'] else if c = '\\' ∨ c = '"' then ['\\', c] else [c]

def quoted (s : String) : String :=
  .ofList ('"' :: (s.toList.flatMap escape ++ ['"']))

theorem stringRest_escape :
    stringRest (s.flatMap escape ++ ['"']) = some (s.flatMap escape ++ ['"']).length := by
  induction s with
  | nil => rfl
  | cons c rest ih =>
    rw [flatMap_cons, append_assoc, escape]
    split
    · simp [stringRest, ih]
    · split
      · rename_i special
        rcases special with rfl | rfl <;> simp [stringRest, ih]
      · have step (tail : List Char) : stringRest (c :: tail) = (stringRest tail).map (· + 1) := by
          rw [stringRest.eq_def]
          split <;> simp_all
        simp [step, ih]

theorem unescape_escape : unescape (s.flatMap escape) = s := by
  induction s with
  | nil => rfl
  | cons c rest ih =>
    rw [flatMap_cons, escape]
    split
    · simp_all [unescape]
    · split
      · rename_i special
        rcases special with rfl | rfl <;> simp [unescape, ih]
      · rename_i plain
        rw [singleton_append, unescape, ih]
        rintro d tail rfl
        simp at plain

theorem longestMatch_quote (closed : stringRest s = some s.length) :
    longestMatch forms ('"' :: s) = (some "String", s.length + 1) := by
  have other : ∀ f ∈ forms, f.1 ≠ some "String" → f.2 ('"' :: s) = 0 := by
    simp only [forms, literals, patterns, forall_mem_append, forall_mem_map, forall_mem_cons]
    simp [literalLength, headed, headedSome, headedGroups, grouped, runLength, wordOf, wordWith,
      restOfLine, numberLike, isDigit, isLower, isUpper, isWord, isCamel, Text.isBlank]
  rcases isLongest_longestMatch forms ('"' :: s) with ⟨greatest, longest⟩
  have whole := greatest (some "String", stringLength) (by simp [forms, patterns])
  simp only [stringLength, closed] at whole
  rcases longest (by omega) with ⟨before, form, after, split, same, -⟩
  have most := measure_le ('"' :: s) form (by simp [split])
  rw [← same] at whole ⊢
  have isString : form.1 = some "String" := by
    by_contra differs
    simp only [other form (by simp [split]) differs] at whole
    cases whole
  rw [isString, Nat.le_antisymm most whole, length_cons]

theorem linesFrom_of_forall {current : List Char} (inLine : ∀ d ∈ s, Text.isLineEnd d = false)
    (nonempty : current.reverse ++ s ≠ []) : Text.linesFrom current s = [current.reverse ++ s] := by
  induction s generalizing current with
  | nil => simpa [Text.linesFrom] using nonempty
  | cons c rest ih =>
    rcases forall_mem_cons.1 inLine with ⟨own, others⟩
    have notReturn : c ≠ '\r' := by
      rintro rfl
      cases own
    have step : Text.linesFrom current (c :: rest) = Text.linesFrom (c :: current) rest := by
      rw [Text.linesFrom.eq_def]
      split <;> simp_all
    rw [step, ih others (by simp)]
    simp

/-- A text between quotes is one token, which stands for the text. -/
theorem scan_quoted (s file : String) (inLine : ∀ c ∈ s.toList, Text.isLineEnd c → c = '\n') :
    let t : Token := ⟨"String", quoted s, some (.onLine 1 1 ((quoted s).length + 1))⟩
    scan (quoted s) file = .ok [t, lineEnd 1 (quoted s).length] ∧
      meaning ⟨"string-constant", ["String"]⟩ [.token t] = pure (.string { text := some s }) := by
  have noEnd : ∀ d ∈ '"' :: (s.toList.flatMap escape ++ ['"']), Text.isLineEnd d = false := by
    simp only [mem_cons, mem_append, mem_flatMap, not_mem_nil, or_false]
    rintro d (rfl | ⟨c, member, escaped⟩ | rfl)
    · rfl
    · have spelled : d = '\\' ∨ d = 'n' ∨ d = c ∧ c ≠ '\n' := by grind [escape]
      rcases spelled with rfl | rfl | ⟨rfl, notNewline⟩
      · rfl
      · rfl
      · exact Bool.eq_false_iff.2 fun isEnd => notNewline (inLine d member isEnd)
    · rfl
  have value : stringText (quoted s) = s := by simp [stringText, quoted, unescape_escape]
  refine ⟨?_, congrArg (fun v => pure (Value.string { text := some v })) value⟩
  rw [quoted, String.length_ofList, scan, String.toList_ofList, linesFrom_of_forall noEnd (by simp)]
  have found := longestMatch_quote (stringRest_escape (s := s.toList))
  generalize s.toList.flatMap escape ++ ['"'] = rest at found
  have words : scanFrom 1 1 ('"' :: rest) =
      .ok [⟨"String", .ofList ('"' :: rest), some (.onLine 1 1 (rest.length + 2))⟩] := by
    rw [scanFrom, found]
    simp only [drop_length, scanFrom, bind, Except.bind, pure, Except.pure]
    rw [← length_cons, take_length, Nat.add_comm 1]
  have visible : Text.isBlank '"' = false := rfl
  simp [scanLines, scanLine, words, visible, adjustBlocks, bind, Except.bind, pure, Except.pure]

theorem scan_quoted_escapes :
    scan (quoted "\"\\\n") "" =
      .ok [⟨"String", "\"\\\"\\\\\\n\"", some (.onLine 1 1 9)⟩, lineEnd 1 8] :=
  (scan_quoted "\"\\\n" "" (by simp [Text.isLineEnd])).1

end BinaryLayout.Token
