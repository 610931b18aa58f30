import BinaryLayout.Proofs.Token.Words
import Mathlib.Data.List.Infix

/-!
# Blocks of lines

What `Indent` and `Dedent` tokens open and close are the blocks of a text: those open where a line
begins spell its white space.  A line whose white space fits no block is rejected.
-/

namespace BinaryLayout.Token

open List
open LR (Token)

/-! ## Blocks in the tokens -/

/-- The texts of the open blocks, the innermost first, after one more token. -/
def turn (stack : List String) (t : Token) : Option (List String) :=
  if t.symbol = "Indent" then some (t.text :: stack)
  else if t.symbol = "Dedent" then stack.tail? else some stack

/-- The texts of the blocks that are open after some tokens. -/
def openTexts (stack : List String) (tokens : List Token) : Option (List String) :=
  tokens.foldlM turn stack

def count (symbol : String) (tokens : List Token) : Nat :=
  (tokens.map (·.symbol)).count symbol

/-- The texts of open blocks from the outermost on, which are the white space of their lines. -/
def spaceOf (stack : List String) : List Char :=
  stack.reverse.flatMap String.toList

def indentation (stack : List String) : Indentation :=
  stack.tails.map spaceOf

variable {stack stack' : List String} {tokens marks others : List Token} {line k : Nat}
  {s space : List Char} {blocks : Indentation} {lines : List (List Char)}

theorem openTexts_append (first : openTexts stack tokens = some stack') :
    openTexts stack (tokens ++ others) = openTexts stack' others := by
  rw [openTexts, foldlM_append]
  exact congrArg (· >>= _) first

theorem openTexts_cons {t : Token} (turned : turn stack t = some stack') :
    openTexts stack (t :: others) = openTexts stack' others :=
  congrArg (· >>= _) turned

theorem count_of_openTexts (opened : openTexts stack tokens = some stack') :
    count "Indent" tokens + stack.length = count "Dedent" tokens + stack'.length := by
  induction tokens generalizing stack with
  | nil => cases opened; rfl
  | cons t rest ih =>
    rcases Option.bind_eq_some_iff.1 opened with ⟨next, turned, following⟩
    have := ih following
    simp only [count, map_cons, count_cons] at this ⊢
    unfold turn at turned
    split at turned
    · rename_i isIndent
      cases turned
      simp [isIndent] at this ⊢
      omega
    · split at turned
      · rename_i isDedent
        cases stack <;> cases turned
        simp [isDedent] at this ⊢
        omega
      · cases turned
        simp_all

/-- Tokens between those that open and close blocks leave the blocks alone. -/
theorem openTexts_of_forall (neutral : ∀ t ∈ tokens, t.symbol ∉ ["Indent", "Dedent"]) :
    openTexts stack tokens = some stack := by
  induction tokens with
  | nil => rfl
  | cons t rest ih =>
    rcases forall_mem_cons.1 neutral with ⟨own, others⟩
    exact (openTexts_cons (by simp_all [turn])).trans (ih others)

theorem openTexts_dedents (dedents : marks.map (·.symbol) = replicate k "Dedent")
    (enough : k ≤ stack.length) : openTexts stack marks = some (stack.drop k) ∧
      indentation (stack.drop k) = (indentation stack).drop k := by
  induction k generalizing stack marks with
  | zero => rw [map_eq_nil_iff.1 dedents]; exact ⟨rfl, rfl⟩
  | succ k ih =>
    rcases stack with _ | ⟨_, stack⟩
    · cases enough
    · rcases map_eq_cons_iff.1 dedents with ⟨t, rest, rfl, isDedent, others⟩
      rcases ih others (Nat.le_of_succ_le_succ enough) with ⟨opened, same⟩
      exact ⟨(openTexts_cons (by simp [turn, isDedent])).trans opened, by simpa [indentation]⟩

theorem headD_indentation : (indentation stack).headD [] = spaceOf stack := by
  cases stack <;> rfl

theorem openTexts_adjustBlocks
    (adjusted : adjustBlocks line space (indentation stack) = some (marks, blocks)) :
    ∃ stack', openTexts stack marks = some stack' ∧ blocks = indentation stack' ∧
      spaceOf stack' = space := by
  rcases adjustBlocks_eq_some adjusted with
    ⟨same, rfl, rfl⟩ | ⟨more, l, same, -, rfl, rfl⟩ | ⟨inner, outer, split, rfl, dedents⟩
  · exact ⟨stack, rfl, rfl, (same.trans headD_indentation).symm⟩
  · rw [headD_indentation] at same
    refine ⟨.ofList more :: stack, by simp [openTexts, turn], ?_, ?_⟩
    · simp [indentation, spaceOf, same]
    · simp [spaceOf, same]
  · have lengths := congrArg length split
    have enough : inner.length ≤ stack.length := by simp [indentation] at lengths; omega
    rcases openTexts_dedents dedents enough with ⟨opened, same⟩
    rw [split, drop_left] at same
    exact ⟨_, opened, same.symm, by rw [← headD_indentation, same]; rfl⟩

theorem take_of_append {a b : List Token} {i : Nat} {t : Token} (isToken : (a ++ b)[i]? = some t) :
    t ∈ a ∧ (a ++ b).take i = a.take i ∨
      ∃ j, b[j]? = some t ∧ (a ++ b).take i = a ++ b.take j := by
  by_cases inside : i < a.length
  · rw [getElem?_append_left inside] at isToken
    exact .inl ⟨mem_of_getElem? isToken, take_append_of_le_length inside.le⟩
  · replace inside := Nat.le_of_not_lt inside
    rw [getElem?_append_right inside] at isToken
    exact .inr ⟨_, isToken, by rw [take_append, take_of_length_le inside]⟩

theorem blocks_of_scanLines (scanned : scanLines line (indentation stack) lines = .ok tokens) :
    openTexts stack tokens = some [] ∧
      ∀ i t, tokens[i]? = some t → t.symbol ∉ "Comment" :: layoutSymbols →
        ∃ k s stack' l, lines[k]? = some s ∧ t.location = some l ∧ l.start.line = line + k ∧
          openTexts stack (tokens.take i) = some stack' ∧
          spaceOf stack' = s.takeWhile Text.isBlank := by
  induction lines generalizing line stack tokens with
  | nil =>
    cases scanned
    refine ⟨?_, fun i t member textual => ?_⟩
    · rw [(openTexts_dedents (k := stack.length) (by simp [indentation]) le_rfl).1, drop_length]
    · rw [eq_of_mem_replicate (mem_of_getElem? member)] at textual
      simp [layoutSymbols] at textual
  | cons s rest ih =>
    rcases scanLines_cons scanned with ⟨own, blocks', others, isLine, areLines, rfl⟩
    rcases scanLine_eq_ok isLine with ⟨marks, words, rfl, noMarks, cut, adjusted⟩
    have stands := (cut_of_scanFrom rfl drop_zero cut).stands
    have marked : ∃ stack', openTexts stack marks = some stack' ∧ blocks' = indentation stack' ∧
        (¬ words.all (·.symbol == "Comment") → spaceOf stack' = s.takeWhile Text.isBlank) := by
      split at adjusted
      · rename_i comments
        exact ⟨stack, adjusted.1 ▸ rfl, adjusted.2, absurd comments⟩
      · rcases openTexts_adjustBlocks adjusted with ⟨stack', opened, same, isSpace⟩
        exact ⟨stack', opened, same, fun _ => isSpace⟩
    rcases marked with ⟨stack', opened, rfl, isSpace⟩
    rcases ih areLines with ⟨closed, later⟩
    have neutral : ∀ t ∈ words ++ [lineEnd line s.length], t.symbol ∉ ["Indent", "Dedent"] := by
      rw [forall_mem_append, forall_mem_singleton]
      refine ⟨fun t member => ?_, by simp [lineEnd, endOfLine]⟩
      rcases stands t member with ⟨i, j, -, stands⟩
      have := stands.longest.symbol
      simp_all [layoutSymbols]
    rw [append_assoc marks words, append_assoc marks, openTexts_append opened,
      openTexts_append (openTexts_of_forall neutral)]
    refine ⟨closed, fun i t isToken textual => ?_⟩
    rcases take_of_append isToken with ⟨inMarks, -⟩ | ⟨j, isToken, taken⟩
    · have layout := filter_eq_nil_iff.1 noMarks t inMarks
      simp_all
    rcases take_of_append isToken with ⟨inLine, taken'⟩ | ⟨j', isToken, taken'⟩ <;>
      rw [taken, taken', openTexts_append opened]
    · have inWords : t ∈ words := by
        refine (mem_append.1 inLine).resolve_right fun isEnd => ?_
        rw [mem_singleton.1 isEnd] at textual
        simp [lineEnd, layoutSymbols] at textual
      rcases stands t inWords with ⟨a, b, -, stands⟩
      refine ⟨0, s, stack', _, rfl, stands.location, rfl, ?_, isSpace fun comments => ?_⟩
      · exact openTexts_of_forall fun t member => neutral t (mem_of_mem_take member)
      · have := all_eq_true.1 comments t inWords
        simp_all
    · rcases later j' t isToken textual with
        ⟨k, s', stack'', l, isLine, place, number, opened, isSpace⟩
      refine ⟨k + 1, s', stack'', l, isLine, place, by omega, ?_, isSpace⟩
      rw [openTexts_append (openTexts_of_forall neutral), opened]

/-! ## Margins of lines -/

/-- The white space at the start of a line that has a token other than a comment. -/
def margin? (line : Nat) (s : List Char) : Option (List Char) :=
  match scanFrom line 1 s with
  | .ok words =>
    if words.all (·.symbol == "Comment") then none else some (s.takeWhile Text.isBlank)
  | .error _ => none

def margins (line : Nat) : List (List Char) → List (List Char)
  | [] => []
  | s :: rest => (margin? line s).toList ++ margins (line + 1) rest

/-- The blocks open after lines with some margins, the last line first: that of the last line, and
those open before it that it lies in. -/
def IsOpen : List (List Char) → List Char → Prop
  | [], m => m = []
  | last :: before, m => m = last ∨ m <+: last ∧ IsOpen before m

/-- The margin of a line extends that of the line before, or is that of an open block. -/
def Fits (before : List (List Char)) (m : List Char) : Prop :=
  before.headD [] <+: m ∨ IsOpen before m

structure Tracks (before : List (List Char)) (blocks : Indentation) : Prop where
  current : blocks.headD [] = before.headD []
  nested : blocks.Pairwise fun inner outer => outer <+: inner ∧ outer ≠ inner
  isOpen : ∀ m, m ∈ blocks ↔ IsOpen before m

variable {before : List (List Char)} {m : List Char} {blocks' : Indentation}

theorem isOpen_nil : IsOpen before [] := by
  induction before with
  | nil => rfl
  | cons last before ih => exact .inr ⟨ nil_prefix, ih⟩

theorem Tracks.adjustBlocks (tracks : Tracks before blocks)
    (adjusted : adjustBlocks line m blocks = some (marks, blocks')) :
    Tracks (m :: before) blocks' ∧ Fits before m := by
  rcases tracks with ⟨current, nested, isOpen⟩
  have kept (inner outer) (split : blocks = inner ++ m :: outer) :
      Tracks (m :: before) (m :: outer) ∧ Fits before m := by
    subst split
    rw [pairwise_append] at nested
    refine ⟨⟨rfl, nested.2.1, fun x => ?_⟩, .inr ((isOpen m).1 (by simp))⟩
    rw [IsOpen, ← isOpen, mem_cons, mem_append, mem_cons]
    have outside (member : x ∈ inner) (inside : x <+: m) : False := by
      rcases nested.2.2 x member m (by simp) with ⟨prolongs, differs⟩
      exact differs (prolongs.eq_of_length_le inside.length_le)
    have below (member : x ∈ outer) : x <+: m := ((pairwise_cons.1 nested.2.1).1 x member).1
    tauto
  rcases adjustBlocks_eq_some adjusted with
    ⟨same, -, rfl⟩ | ⟨more, l, same, prolongs, rfl, -⟩ | ⟨inner, outer, split, rfl, -⟩
  · rcases blocks' with _ | ⟨block, outer⟩
    · exact absurd ((isOpen []).2 isOpen_nil) not_mem_nil
    · cases same
      exact kept [] outer rfl
  · have inside : ∀ x ∈ blocks, x <+: m ∧ x ≠ m := by
      intro x member
      have within : x <+: blocks.headD [] := by
        rcases blocks with _ | ⟨block, outer⟩
        · cases member
        · rcases mem_cons.1 member with rfl | below
          · exact prefix_rfl
          · exact ((pairwise_cons.1 nested).1 x below).1
      have shorter := length_pos_of_ne_nil prolongs
      refine ⟨within.trans (same ▸ prefix_append ..), fun isMargin => ?_⟩
      have bound := within.length_le
      rw [isMargin, same, length_append] at bound
      omega
    refine ⟨⟨rfl, pairwise_cons.2 ⟨inside, nested⟩, fun x => ?_⟩,
      .inl (current ▸ same ▸ prefix_append ..)⟩
    have := inside x
    rw [IsOpen, ← isOpen, mem_cons]
    tauto
  · exact kept inner outer split

theorem closeBlocks_eq_none (closed : closeBlocks line m blocks = none) : m ∉ blocks := by
  induction blocks with
  | nil => exact not_mem_nil
  | cons block outer ih =>
    rw [closeBlocks] at closed
    split at closed
    · cases closed
    · rw [Option.map_eq_none_iff] at closed
      simp_all

theorem Tracks.not_fits (tracks : Tracks before blocks)
    (failed : Token.adjustBlocks line m blocks = none) : ¬ Fits before m := by
  simp only [Token.adjustBlocks] at failed
  split at failed
  · cases failed
  · split at failed
    · cases failed
    · rename_i notExtended
      rw [Fits, ← tracks.isOpen, ← tracks.current, ← isPrefixOf_iff_prefix]
      exact not_or.2 ⟨notExtended, closeBlocks_eq_none failed⟩

theorem scanLines_of_scanLine {own : List Token} {rest : List (List Char)} (text : String)
    (isLine : scanLine line s blocks = .ok (own, blocks')) :
    (∃ l, scanLines line blocks (s :: rest) = .error ⟨l, text⟩) ↔
      ∃ l, scanLines (line + 1) blocks' rest = .error ⟨l, text⟩ := by
  cases areLines : scanLines (line + 1) blocks' rest <;>
    simp [scanLines, isLine, areLines, bind, Except.bind, pure, Except.pure]

/-- Lines that can all be cut are rejected for their blocks exactly if a margin does not fit. -/
theorem scanLines_eq_error
    (cut : ∀ k s, lines[k]? = some s → ∃ words, scanFrom (line + k) 1 s = .ok words)
    (tracks : Tracks before blocks) :
    (∃ l, scanLines line blocks lines = .error ⟨l, "Bad indentation"⟩) ↔
      ∃ front m rest, margins line lines = front ++ m :: rest ∧
        ¬ Fits (front.reverse ++ before) m := by
  induction lines generalizing line before blocks with
  | nil => simp [scanLines, margins]
  | cons s rest ih =>
    rcases cut 0 s rfl with ⟨words, scanned⟩
    rw [Nat.add_zero] at scanned
    have later (k s') (isLine : rest[k]? = some s') :
        ∃ words, scanFrom (line + 1 + k) 1 s' = .ok words := by
      rw [Nat.add_assoc, Nat.add_comm 1]
      exact cut (k + 1) s' isLine
    by_cases comments : words.all (·.symbol == "Comment")
    · have isLine : scanLine line s blocks = .ok (words ++ [lineEnd line s.length], blocks) := by
        simp only [scanLine, scanned, comments, if_true]
      rw [scanLines_of_scanLine _ isLine, ih later tracks, margins, margin?, scanned]
      simp only [comments, if_true, Option.toList_none, nil_append]
    · have isMargin : margins line (s :: rest) =
          s.takeWhile Text.isBlank :: margins (line + 1) rest := by
        rw [margins, margin?, scanned]
        simp only [comments]
        rfl
      rw [isMargin]
      cases adjusted : Token.adjustBlocks line (s.takeWhile Text.isBlank) blocks with
      | none =>
        refine iff_of_true ?_ ⟨[], _, _, rfl, tracks.not_fits adjusted⟩
        simp only [scanLines, scanLine, scanned, comments, adjusted]
        exact ⟨_, rfl⟩
      | some result =>
        rcases tracks.adjustBlocks adjusted with ⟨tracks', fits⟩
        have isLine : scanLine line s blocks =
            .ok (result.1 ++ words ++ [lineEnd line s.length], result.2) := by
          simp only [scanLine, scanned, comments, adjusted]
          rfl
        rw [scanLines_of_scanLine _ isLine, ih later tracks']
        constructor
        · rintro ⟨front, m, rest, same, outside⟩
          exact ⟨_ :: front, m, rest, congrArg (_ :: ·) same, by simpa using outside⟩
        · rintro ⟨_ | ⟨first, front⟩, m, rest, same, outside⟩
          · cases same
            exact absurd fits outside
          · rcases cons.inj same with ⟨rfl, others⟩
            exact ⟨front, m, rest, others, by simpa using outside⟩

/-! ## Texts -/

/-- Every block is closed after it was opened, and the texts that open the blocks around a word are
together the white space at the start of its line. -/
structure Nested (lines : List (List Char)) (tokens : List Token) : Prop where
  opened : ∀ front, front <+: tokens → count "Dedent" front ≤ count "Indent" front
  closed : count "Dedent" tokens = count "Indent" tokens
  spelled : ∀ i t, tokens[i]? = some t → t.symbol ∉ "Comment" :: layoutSymbols →
    ∃ k s stack l, lines[k]? = some s ∧ t.location = some l ∧ l.start.line = 1 + k ∧
      openTexts [] (tokens.take i) = some stack ∧ spaceOf stack = s.takeWhile Text.isBlank

/-- The tokens of a text are nested.  A text that can be cut into words is rejected exactly if the
margin of a line neither extends the one before nor is that of an open block. -/
theorem nested_of_scan (text file : String) :
    (∀ tokens, scan text file = .ok tokens → Nested (Text.linesFrom [] text.toList) tokens) ∧
      ((∀ k s, (Text.linesFrom [] text.toList)[k]? = some s →
          ∃ words, scanFrom (1 + k) 1 s = .ok words) →
        ((∃ l, scan text file = .error (.error file (some l) "Bad indentation")) ↔
          ∃ front m rest, margins 1 (Text.linesFrom [] text.toList) = front ++ m :: rest ∧
            ¬ Fits front.reverse m)) := by
  refine ⟨fun tokens scanned => ?_, fun cut => ?_⟩
  · have areLines : scanLines 1 (indentation []) (Text.linesFrom [] text.toList) = .ok tokens := by
      rw [scan] at scanned
      split at scanned <;> cases scanned
      assumption
    rcases blocks_of_scanLines areLines with ⟨opened, spelled⟩
    refine ⟨?_, ?_, spelled⟩
    · rintro front ⟨rest, rfl⟩
      rw [openTexts, foldlM_append] at opened
      rcases Option.bind_eq_some_iff.1 opened with ⟨stack, some, -⟩
      have := count_of_openTexts some
      rw [length_nil] at this
      omega
    · exact (count_of_openTexts opened).symm
  · have tracks : Tracks [] [[]] := ⟨rfl, pairwise_singleton .., fun m => by simp [IsOpen]⟩
    have rejected := scanLines_eq_error cut tracks
    simp only [append_nil] at rejected
    rw [← rejected, scan]
    cases scanLines 1 [[]] (Text.linesFrom [] text.toList) with
    | ok => simp
    | error e =>
      constructor
      · rintro ⟨l, same⟩
        injection same with same
        injection same with _ _ _ reason
        exact ⟨e.location, by rw [← reason]⟩
      · rintro ⟨l, same⟩
        cases same
        exact ⟨l, rfl⟩

theorem nested_of_scan_word :
    (∃ tokens, scan " a" "" = .ok tokens ∧ Nested [[' ', 'a']] tokens) ∧
      ∃ l, scan " a\n\ta" "" = .error (.error "" (some l) "Bad indentation") := by
  rcases exists_scan_word with ⟨isLine, tokens, scanned⟩
  have areLines : Text.linesFrom [] " a\n\ta".toList = [[' ', 'a'], ['\t', 'a']] := by
    decide +kernel
  refine ⟨⟨tokens, scanned, isLine ▸ (nested_of_scan " a" "").1 tokens scanned⟩,
    ((nested_of_scan " a\n\ta" "").2 ?_).2 ⟨[[' ']], ['\t'], [], ?_, by simp [Fits, IsOpen]⟩⟩
  · rw [areLines]
    rintro (_ | _ | k) s same <;> cases same
    · exact ⟨_, scanFrom_blank (.inl rfl)⟩
    · exact ⟨_, scanFrom_blank (.inr rfl)⟩
  · rw [areLines, margins, margins, margin?, margin?, scanFrom_blank (.inl rfl),
      scanFrom_blank (.inr rfl)]
    rfl

/-- A comment may stand at a margin that fits no block. -/
theorem scan_comment_outside :
    Text.linesFrom [] " a\n\t#".toList = [[' ', 'a'], ['\t', '#']] ∧
      (∃ tokens, scan " a\n\t#" "" = .ok tokens) ∧ ¬ Fits [[' ']] ['\t'] := by
  have areLines : Text.linesFrom [] " a\n\t#".toList = [[' ', 'a'], ['\t', '#']] := by
    decide +kernel
  have comment : scanFrom 2 1 ['\t', '#'] = .ok [⟨"Comment", "#", some (.onLine 2 2 3)⟩] := by
    have skipped : longestMatch forms ['\t', '#'] = (none, 1) := by decide +kernel
    have word : longestMatch forms ['#'] = (some "Comment", 1) := by decide +kernel
    simp [scanFrom, skipped, word]
  refine ⟨areLines, ?_, by simp [Fits, IsOpen]⟩
  rw [scan, areLines, scanLines, scanLine, scanFrom_blank (.inl rfl)]
  simp only [scanLines, scanLine, comment]
  exact ⟨_, rfl⟩

end BinaryLayout.Token
