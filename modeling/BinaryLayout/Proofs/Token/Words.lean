import BinaryLayout.Token.Scan
import Mathlib.Data.List.Induction

/-!
# Nothing is lost in tokens

The tokens that stand for text have their places in the lines one after the other, and what they
leave out is white space.  Each is the longest that a form of token matches where it begins.
-/

namespace BinaryLayout.Token

open List
open LR (Token)

/-! ## Lengths of matches -/

section Lengths

variable (head : String) (kind start goesOn needs : Char → Bool) (size : Nat) (s : List Char)

@[simp]
theorem runLength_le : runLength kind s ≤ s.length :=
  (takeWhile_sublist kind).length_le

local grind_pattern runLength_le => runLength kind s

@[simp]
theorem literalLength_le : literalLength head s ≤ s.length := by
  rw [literalLength]
  split
  · rename_i begins
    exact String.length_toList ▸ ( isPrefixOf_iff_prefix.1 begins).length_le
  · exact Nat.zero_le _

local grind_pattern literalLength_le => head.toList.isPrefixOf s

@[simp]
theorem headed_le : headed head kind s ≤ s.length := by
  grind [headed, literalLength]

@[simp]
theorem headedSome_le : headedSome head kind s ≤ s.length := by
  grind [headedSome, literalLength]

theorem groupsLength_le : groupsLength kind size s ≤ s.length := by
  fun_induction groupsLength kind size s with grind

local grind_pattern groupsLength_le => groupsLength kind size s

@[simp]
theorem grouped_le : grouped kind size s ≤ s.length := by
  grind [grouped]

local grind_pattern grouped_le => grouped kind size s

@[simp]
theorem headedGroups_le : headedGroups head kind size s ≤ s.length := by
  have rest := length_drop (i := head.length) (l := s)
  grind [headedGroups, literalLength]

@[simp]
theorem wordOf_le : wordOf start goesOn s ≤ s.length := by
  cases s <;> grind [wordOf]

@[simp]
theorem wordWith_le : wordWith start goesOn needs s ≤ s.length := by
  cases s <;> grind [wordWith]

@[simp]
theorem numberLike_le : numberLike s ≤ s.length := by
  rcases s with _ | ⟨_, _ | ⟨_, _⟩⟩ <;> grind [numberLike]

theorem stringRest_le {n : Nat} (closed : stringRest s = some n) : n ≤ s.length := by
  fun_induction stringRest s generalizing n with grind [Option.map_eq_some_iff]

@[simp]
theorem stringLength_le : stringLength s ≤ s.length := by
  fun_cases stringLength s with
  | case1 rest n closed => exact Nat.succ_le_succ (stringRest_le rest closed)
  | _ => exact Nat.zero_le _

@[simp]
theorem restOfLine_le : restOfLine head s ≤ s.length := by
  grind [restOfLine]

theorem measure_le : ∀ f ∈ forms, f.2 s ≤ s.length := by
  have trueOrFalse : literalLength "true" s + literalLength "false" s ≤ s.length := by
    have := literalLength_le "true" s
    have := literalLength_le "false" s
    cases s <;> grind [literalLength]
  have dashes : (if s = ['-', '-'] then 2 else 0) ≤ s.length := by grind
  simp only [forms, patterns, forall_mem_append, forall_mem_map, forall_mem_cons]
  simp [trueOrFalse, dashes]

end Lengths

/-! ## The longest match -/

/-- The first of the forms that match most of a text is one for a symbol, and it matches so much. -/
def IsLongest (fs : List (Option String × (List Char → Nat))) (s : List Char)
    (found : Option String × Nat) : Prop :=
  ∃ before form after, fs = before ++ form :: after ∧ (form.1, form.2 s) = found ∧
    (∀ f ∈ before, f.2 s < found.2) ∧ ∀ f ∈ after, f.2 s ≤ found.2

theorem isLongest_longestMatch (fs : List (Option String × (List Char → Nat))) (s : List Char) :
    (∀ f ∈ fs, f.2 s ≤ (longestMatch fs s).2) ∧
      (0 < (longestMatch fs s).2 → IsLongest fs s (longestMatch fs s)) := by
  induction fs using reverseRecOn with
  | nil => exact ⟨nofun, nofun⟩
  | append_singleton fs f ih =>
    rcases ih with ⟨greatest, longest⟩
    have step : longestMatch (fs ++ [f]) s =
        if (longestMatch fs s).2 < f.2 s then (f.1, f.2 s) else longestMatch fs s :=
      foldl_append ..
    rw [step, forall_mem_append, forall_mem_singleton]
    split
    · rename_i longer
      have shorter (g) (member : g ∈ fs) := Nat.lt_of_le_of_lt (greatest g member) longer
      exact ⟨⟨fun g member => Nat.le_of_lt (shorter g member), Nat.le_refl _⟩,
        fun _ => ⟨fs, f, [], rfl, rfl, shorter, nofun⟩⟩
    · rename_i notLonger
      have shorter := Nat.le_of_not_lt notLonger
      refine ⟨⟨greatest, shorter⟩, fun positive => ?_⟩
      rcases longest positive with ⟨before, g, after, rfl, same, first, rest⟩
      exact ⟨before, g, after ++ [f], by simp, same, first,
        forall_mem_append.2 ⟨rest, forall_mem_singleton.2 shorter⟩⟩

variable {x : Option String} {n : Nat} {s : List Char}

theorem isLongest_of_longestMatch (found : longestMatch forms s = (x, n + 1)) :
    IsLongest forms s (x, n + 1) :=
  found ▸ (isLongest_longestMatch forms s).2 (by simp [found])

theorem IsLongest.le (longest : IsLongest forms s (x, n)) : n ≤ s.length := by
  rcases longest with ⟨before, form, after, split, same, -⟩
  cases same
  exact measure_le s form (by simp [split])

/-- Nothing but white space is left out. -/
theorem IsLongest.isBlank (longest : IsLongest forms s (none, n)) :
    (s.take n).all Text.isBlank := by
  have blanks : ∀ f ∈ forms, f.1 = none → f.2 = runLength Text.isBlank := by
    simp only [forms, patterns, forall_mem_append, forall_mem_map, forall_mem_cons]
    simp
  rcases longest with ⟨before, form, after, split, same, -⟩
  rcases Prod.mk.inj same with ⟨isNone, rfl⟩
  rw [blanks form (by simp [split]) isNone, runLength, ← prefix_iff_eq_take.1 ( takeWhile_prefix _)]
  exact all_takeWhile

def layoutSymbols : List String := ["Indent", "Dedent", endOfLine]

theorem IsLongest.symbol {symbol : String} (longest : IsLongest forms s (some symbol, n)) :
    symbol ∉ layoutSymbols := by
  have textual : ∀ f ∈ forms, f.1 ∉ layoutSymbols.map some := by decide +kernel
  rcases longest with ⟨before, form, after, split, same, -⟩
  have notLayout := textual form (by simp [split])
  simpa [(Prod.mk.inj same).1] using notLayout

/-! ## Lines -/

/-- A token stands in a line from one character up to another. -/
structure Stands (line : Nat) (s : List Char) (t : Token) (i j : Nat) : Prop where
  location : t.location = some (.onLine line (i + 1) (j + 1))
  nonempty : i < j
  within : j ≤ s.length
  text : t.text = String.ofList ((s.take j).drop i)
  longest : IsLongest forms (s.drop i) (some t.symbol, j - i)

/-- One token ends before another begins. -/
def Precedes (t u : Token) : Prop :=
  ∃ l m, t.location = some l ∧ u.location = some m ∧ l.stop.le m.start

/-- Tokens that stand in a line one after the other, from a character on, and leave out nothing but
white space. -/
structure Cut (line : Nat) (s : List Char) (k : Nat) (tokens : List Token) : Prop where
  ordered : tokens.Pairwise Precedes
  stands : ∀ t ∈ tokens, ∃ i j, k ≤ i ∧ Stands line s t i j
  covers : ∀ i c, k ≤ i → s[i]? = some c → Text.isBlank c = false →
    ∃ t ∈ tokens, ∃ a b, Stands line s t a b ∧ a ≤ i ∧ i < b

variable {line column k : Nat} {rest : List Char} {t : Token} {tokens : List Token}

theorem cut_of_scanFrom (place : column = k + 1) (isRest : s.drop k = rest)
    (scanned : scanFrom line column rest = .ok tokens) : Cut line s k tokens := by
  -- `rest` is what the scanner has left of the line after `k` characters.
  fun_induction scanFrom line column rest generalizing k tokens with
  | case1 =>
    cases scanned
    refine ⟨.nil, nofun, fun i c after isChar => ?_⟩
    rw [getElem?_eq_none (Nat.le_trans (drop_eq_nil_iff.1 isRest) after)] at isChar
    cases isChar
  | case2 => cases scanned
  | case3 column c rest n found ih =>
    have longest := isLongest_of_longestMatch found
    have isNext : s.drop (k + n + 1) = rest.drop n := by
      rw [Nat.add_assoc, ← drop_drop, isRest, drop_succ_cons]
    have cut := ih (by omega) isNext scanned
    refine ⟨cut.ordered, fun t member => ?_, fun i d after isChar notBlank => ?_⟩
    · rcases cut.stands t member with ⟨i, j, after, stands⟩
      exact ⟨i, j, by omega, stands⟩
    · refine cut.covers i d (Nat.le_of_not_lt fun inside => ?_) isChar notBlank
      have skipped : ((c :: rest).take (n + 1))[i - k]? = some d := by
        rw [← isRest, getElem?_take_of_lt (by omega), getElem?_drop, Nat.add_sub_cancel' after,
          isChar]
      have blank := all_eq_true.1 longest.isBlank d (mem_of_getElem? skipped)
      rw [notBlank] at blank
      cases blank
  | case4 column c rest symbol n found ih =>
    have longest := isLongest_of_longestMatch found
    have isNext : s.drop (k + n + 1) = rest.drop n := by
      rw [Nat.add_assoc, ← drop_drop, isRest, drop_succ_cons]
    cases others : scanFrom line (column + n + 1) (rest.drop n) with
    | error => rw [others] at scanned; cases scanned
    | ok words =>
      rw [others] at scanned
      cases scanned
      have cut := ih (by omega) isNext others
      have within := longest.le
      rw [← isRest, length_drop] at within
      have size : k + n + 1 - k = n + 1 := by omega
      have first : Stands line s ⟨symbol, .ofList ((c :: rest).take (n + 1)),
          some (.onLine line column (column + n + 1))⟩ k (k + n + 1) := by
        refine ⟨by rw [place, Nat.add_right_comm k], by omega, by omega, ?_, ?_⟩
        · rw [drop_take, isRest, size]
        · rwa [isRest, size]
      refine ⟨pairwise_cons.2 ⟨fun t member => ?_, cut.ordered⟩, forall_mem_cons.2
        ⟨⟨_, _, Nat.le_refl k, first⟩, fun t member => ?_⟩, fun i d after isChar notBlank => ?_⟩
      · rcases cut.stands t member with ⟨i, j, after, stands⟩
        exact ⟨_, _, first.location, stands.location, by simp [Location.onLine, Position.le, after]⟩
      · rcases cut.stands t member with ⟨i, j, after, stands⟩
        exact ⟨i, j, by omega, stands⟩
      · by_cases inside : i < k + n + 1
        · exact ⟨_, mem_cons_self, _, _, first, after, inside⟩
        · rcases cut.covers i d (Nat.le_of_not_lt inside) isChar notBlank with ⟨t, member, covered⟩
          exact ⟨t, mem_cons_of_mem _ member, covered⟩

/-! ## Texts -/

/-- The tokens that stand for text, not for blocks or the end of a line. -/
def textual (tokens : List Token) : List Token :=
  tokens.filter (·.symbol ∉ layoutSymbols)

theorem Cut.textual_eq (cut : Cut line s k tokens) : textual tokens = tokens := by
  refine filter_eq_self.2 fun t member => ?_
  rcases cut.stands t member with ⟨i, j, -, stands⟩
  exact decide_eq_true stands.longest.symbol

variable {blocks blocks' : Indentation} {space : List Char} {lines : List (List Char)}

theorem closeBlocks_eq_some (closed : closeBlocks line space blocks = some (tokens, blocks')) :
    ∃ inner outer, blocks = inner ++ space :: outer ∧ blocks' = space :: outer ∧
      tokens.map (·.symbol) = replicate inner.length "Dedent" := by
  induction blocks generalizing tokens with
  | nil => cases closed
  | cons block outer ih =>
    rw [closeBlocks] at closed
    split at closed
    · rename_i same
      cases closed
      exact ⟨[], outer, same ▸ rfl, same ▸ rfl, rfl⟩
    · rcases Option.map_eq_some_iff.1 closed with ⟨⟨others, _⟩, below, same⟩
      cases same
      rcases ih below with ⟨inner, outer, rfl, rfl, symbols⟩
      exact ⟨block :: inner, outer, rfl, rfl, congrArg ("Dedent" :: ·) symbols⟩

/-- A line goes on in its block, opens one, or closes those that it is not in. -/
theorem adjustBlocks_eq_some (adjusted : adjustBlocks line space blocks = some (tokens, blocks')) :
    (space = blocks.headD [] ∧ tokens = [] ∧ blocks' = blocks) ∨
      (∃ more l, space = blocks.headD [] ++ more ∧ more ≠ [] ∧ blocks' = space :: blocks ∧
        tokens = [⟨"Indent", .ofList more, l⟩]) ∨
      ∃ inner outer, blocks = inner ++ space :: outer ∧ blocks' = space :: outer ∧
        tokens.map (·.symbol) = replicate inner.length "Dedent" := by
  simp only [adjustBlocks] at adjusted
  split at adjusted
  · cases adjusted
    exact .inl ⟨‹_›, rfl, rfl⟩
  · split at adjusted
    · rename_i differs prolongs
      rcases isPrefixOf_iff_prefix.1 prolongs with ⟨more, same⟩
      cases adjusted
      refine .inr (.inl ⟨more, _, same.symm, ?_, rfl, by rw [← same, drop_left]⟩)
      rintro rfl
      exact differs (by rw [← same, append_nil])
    · exact .inr (.inr (closeBlocks_eq_some adjusted))

theorem textual_adjustBlocks (adjusted : adjustBlocks line space blocks = some (tokens, blocks')) :
    textual tokens = [] := by
  rw [textual, filter_eq_nil_iff]
  rcases adjustBlocks_eq_some adjusted with
    ⟨-, rfl, -⟩ | ⟨_, _, -, -, -, rfl⟩ | ⟨_, _, -, -, symbols⟩
  · exact nofun
  · simp [layoutSymbols]
  · intro t member
    have isDedent : t.symbol = "Dedent" := eq_of_mem_replicate (symbols ▸ mem_map_of_mem member)
    simp [isDedent, layoutSymbols]

theorem scanLine_eq_ok (scanned : scanLine line s blocks = .ok (tokens, blocks')) :
    ∃ marks words, tokens = marks ++ words ++ [lineEnd line s.length] ∧
      textual marks = [] ∧ scanFrom line 1 s = .ok words ∧ if words.all (·.symbol == "Comment") then
        marks = [] ∧ blocks' = blocks
      else adjustBlocks line (s.takeWhile Text.isBlank) blocks = some (marks, blocks') := by
  rw [scanLine] at scanned
  split at scanned
  · cases scanned
  · rename_i words cut
    split at scanned
    · rename_i comments
      cases scanned
      exact ⟨[], words, rfl, rfl, cut, by simp [comments]⟩
    · rename_i content
      dsimp only at scanned
      split at scanned
      · cases scanned
      · rename_i adjusted
        cases scanned
        exact ⟨_, words, rfl, textual_adjustBlocks adjusted, cut, by rwa [if_neg content]⟩

theorem scanLines_cons {rest : List (List Char)}
    (scanned : scanLines line blocks (s :: rest) = .ok tokens) :
    ∃ own blocks' others, scanLine line s blocks = .ok (own, blocks') ∧
      scanLines (line + 1) blocks' rest = .ok others ∧ tokens = own ++ others := by
  rw [scanLines] at scanned
  cases isLine : scanLine line s blocks with
  | error => rw [isLine] at scanned; cases scanned
  | ok result =>
    cases areLines : scanLines (line + 1) result.2 rest with
    | error =>
      simp only [isLine, areLines, bind, Except.bind] at scanned
      cases scanned
    | ok others =>
      simp only [isLine, areLines, bind, Except.bind] at scanned
      cases scanned
      exact ⟨_, _, others, rfl, areLines, rfl⟩

/-- The tokens of lines from one with a given number on stand in them one after the other, and
leave out nothing but white space. -/
structure Lossless (first : Nat) (lines : List (List Char)) (tokens : List Token) : Prop where
  ordered : tokens.Pairwise Precedes
  stands : ∀ t ∈ tokens, ∃ k s i j, lines[k]? = some s ∧ Stands (first + k) s t i j
  covers : ∀ k s i c, lines[k]? = some s → s[i]? = some c → Text.isBlank c = false →
    ∃ t ∈ tokens, ∃ a b, Stands (first + k) s t a b ∧ a ≤ i ∧ i < b

theorem Lossless.cons {words : List Token} (cut : Cut line s 0 words)
    (lossless : Lossless (line + 1) lines tokens) :
    Lossless line (s :: lines) (words ++ tokens) := by
  have next (k : Nat) : line + 1 + k = line + (k + 1) := by omega
  refine ⟨pairwise_append.2 ⟨cut.ordered, lossless.ordered, fun t member u later => ?_⟩,
    forall_mem_append.2 ⟨fun t member => ?_, fun t member => ?_⟩,
    fun k _ i c isLine isChar notBlank => ?_⟩
  · rcases cut.stands t member with ⟨_, _, _, here⟩
    rcases lossless.stands u later with ⟨k, _, _, _, _, there⟩
    refine ⟨_, _, here.location, there.location, ?_⟩
    simp [Location.onLine, Position.le, next]
  · rcases cut.stands t member with ⟨i, j, -, stands⟩
    exact ⟨0, s, i, j, rfl, stands⟩
  · rcases lossless.stands t member with ⟨k, s, i, j, isLine, stands⟩
    exact ⟨k + 1, s, i, j, isLine, next k ▸ stands⟩
  · cases k with
    | zero =>
      cases isLine
      rcases cut.covers i c (Nat.zero_le i) isChar notBlank with ⟨t, member, covered⟩
      exact ⟨t, mem_append_left _ member, covered⟩
    | succ k =>
      rcases lossless.covers k _ i c isLine isChar notBlank with ⟨t, member, covered⟩
      exact ⟨t, mem_append_right _ member, next k ▸ covered⟩

theorem lossless_of_scanLines (scanned : scanLines line blocks lines = .ok tokens) :
    Lossless line lines (textual tokens) := by
  induction lines generalizing line blocks tokens with
  | nil =>
    cases scanned
    have noText : textual (replicate (blocks.length - 1)
        ⟨"Dedent", "", some (.onLine line 1 1)⟩) = [] := by
      simp [textual, layoutSymbols]
    rw [noText]
    exact ⟨.nil, nofun, nofun⟩
  | cons s rest ih =>
    rcases scanLines_cons scanned with ⟨own, blocks', others, isLine, areLines, rfl⟩
    rcases scanLine_eq_ok isLine with ⟨marks, words, rfl, noMarks, scanned, -⟩
    have cut := cut_of_scanFrom rfl drop_zero scanned
    have noEnd : textual [lineEnd line s.length] = [] := by simp [textual, lineEnd, layoutSymbols]
    rw [textual, filter_append, filter_append, filter_append]
    simp only [← textual.eq_1, noMarks, noEnd, cut.textual_eq, nil_append, append_nil]
    exact Lossless.cons cut (ih areLines)

/-- If a text can be cut into tokens, nothing of it is lost. -/
theorem lossless_of_scan {text file : String} (scanned : scan text file = .ok tokens) :
    Lossless 1 (Text.linesFrom [] text.toList) (textual tokens) := by
  rw [scan] at scanned
  split at scanned
  · rename_i areLines
    cases scanned
    exact lossless_of_scanLines areLines
  · cases scanned

theorem scanFrom_blank {c : Char} (blank : c = ' ' ∨ c = '\t') :
    scanFrom line 1 [c, 'a'] = .ok [⟨"SnakeWord", "a", some (.onLine line 2 3)⟩] := by
  have skipped : longestMatch forms [c, 'a'] = (none, 1) := by
    rcases blank with rfl | rfl <;> decide +kernel
  have word : longestMatch forms ['a'] = (some "SnakeWord", 1) := by decide +kernel
  simp [scanFrom, skipped, word]

theorem exists_scan_word :
    Text.linesFrom [] " a".toList = [[' ', 'a']] ∧ ∃ tokens, scan " a" "" = .ok tokens := by
  have isLine : Text.linesFrom [] " a".toList = [[' ', 'a']] := by decide +kernel
  rw [scan, isLine, scanLines, scanLine, scanFrom_blank (.inl rfl)]
  exact ⟨rfl, _, rfl⟩

theorem lossless_of_scan_word :
    ∃ tokens, scan " a" "" = .ok tokens ∧ Lossless 1 [[' ', 'a']] (textual tokens) := by
  rcases exists_scan_word with ⟨isLine, tokens, scanned⟩
  exact ⟨tokens, scanned, isLine ▸ lossless_of_scan scanned⟩

end BinaryLayout.Token
