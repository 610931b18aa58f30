import Mathlib.Data.List.Basic
import BinaryLayout.Language.Grammar
import BinaryLayout.Proofs.LR.Transform
import BinaryLayout.Proofs.Language.Sense

/-!
# Expressions made from parse trees

The expression that is made from a parse tree has the value that the text means.  The grammar of
expressions has some eighty productions, but few forms of them: every symbol stands for a kind of
part, and the proof is by the kinds on the right side of a production.
-/

namespace BinaryLayout.Language

open IR List

variable (call : String → List Sense → Sense)

/-! ## Parts of an expression -/

/-- What a symbol of the grammar of expressions stands for. -/
inductive Part where
  | token | dot | word | number | boolean | reference | path | paths | name | argument | arguments
  | mark (rank : Nat) | operator (rank : Nat) | expression (rank : Nat) | link (rank : Nat)
  | links (rank : Nat)
deriving DecidableEq

/-- What was made from a tree is what its text says. -/
def Part.Fits : Part → LR.Tree → Value → Prop
  | .token, t, v => ∃ k, v = .token k ∧ words t = [k.text]
  | .mark rank, t, v => ∃ k, v = .token k ∧ words t = [k.text] ∧
      pieces call t = [.operator k.text] ∧ rankOf k.text = rank
  | .dot, t, _ => words t = []
  | .word, t, v => ∃ w, v = .word w ∧ words t = [textOf w]
  | .operator rank, t, v => ∃ w, v = .word w ∧ words t = [textOf w] ∧
      pieces call t = [.operator (textOf w)] ∧ rankOf (textOf w) = rank
  | .number, t, v => ∃ n, v = .number n ∧ ReadsAt 5 (pieces call t) (sense call (.constant n {}))
  | .boolean, t, v => ∃ b, v = .boolean b ∧
      ReadsAt 5 (pieces call t) (sense call (.booleanConstant b {}))
  | .reference, t, v | .path, t, v => ∃ r, v = .reference r ∧ words t = spelling r
  | .paths, t, v => ∃ vs l, v = .list vs l ∧ words t = v.references.flatMap spelling
  | .name, t, v => ∃ r, v = .reference r ∧ ReadsAt 5 (pieces call t) (· (spelling r))
  | .expression rank, t, v => ∃ e, v = .expression e ∧ ReadsAt rank (pieces call t) (sense call e)
  | .link rank, t, v => ∃ w e l, v = .tail w e l ∧
      LinksAt rank (pieces call t) [(textOf w, sense call e)]
  | .links rank, t, v => ∃ vs l, v = .list vs l ∧
      LinksAt rank (pieces call t) (linksOf call v.tails)
  | .argument, t, v => ∃ e, v = .expression e ∧ argumentsOf call t = [sense call e]
  | .arguments, t, v => ∃ vs l, v = .list vs l ∧ argumentsOf call t = senses call v.expressions

/-- The forms of productions: left sides, what stands on the right, and what is made of it. -/
abbrev Forms := List (List String × List Part × Part)

def expressionForms : Forms :=
  [(["expression"], [.expression 0], .expression 0),
    (["logical-expression"], [.expression 1], .expression 1),
    (["negation-expression", "bottom-expression"], [.expression 5], .expression 5),
    (["choice-expression"], [.expression 1], .expression 0),
    (["logical-expression"], [.expression 2], .expression 1),
    (["comparison-expression"], [.expression 3], .expression 2),
    (["choice-expression"], [.expression 1, .mark 0, .expression 1, .mark 0, .expression 1],
      .expression 0),
    (["comparison-expression"], [.expression 3, .operator 2, .expression 3], .expression 2),
    (["comparison-expression"], [.expression 3, .links 2], .expression 2),
    (["and-expression", "or-expression"], [.expression 2, .links 1], .expression 1),
    (["additive-expression"], [.expression 4, .links 3], .expression 3),
    (["times-expression"], [.expression 5, .links 4], .expression 4),
    (["negation-expression"], [.operator 3, .expression 5], .expression 5),
    (["bottom-expression"], [.token, .expression 0, .token], .expression 5),
    (["bottom-expression"], [.word, .token, .arguments, .token], .expression 5),
    (["bottom-expression"], [.number], .expression 5),
    (["bottom-expression"], [.boolean], .expression 5),
    (["bottom-expression"], [.name], .expression 5),
    (["field-reference"], [.reference, .paths], .expression 5)]

def wordForms : Forms :=
  [(["numeric-constant"], [.token], .number),
    (["boolean-constant"], [.token], .boolean),
    (["constant-reference"], [.path], .name),
    (["constant-reference"], [.reference, .dot, .path], .name),
    (["builtin-reference"], [.word], .name),
    (["snake-reference"], [.word], .reference),
    (["constant-reference-tail"], [.word], .path),
    (["constant-reference-tail"], [.word, .dot, .path], .path),
    (["constant-reference-tail"], [.word, .dot, .reference], .path),
    (["field-reference-tail"], [.dot, .reference], .path),
    (["function-name", "snake-word", "type-word", "constant-word", "builtin-word",
      "builtin-field-word"], [.token], .word),
    (["and-operator", "or-operator"], [.mark 1], .operator 1),
    (["less-operator", "greater-operator", "equality-operator", "inequality-operator"], [.mark 2],
      .operator 2),
    (["additive-operator"], [.mark 3], .operator 3),
    (["multiplicative-operator"], [.mark 4], .operator 4)]

def listForms : Forms :=
  [(["field-reference-tail*"], [], .paths),
    (["field-reference-tail*"], [.path, .paths], .paths),
    (["comma-then-expression"], [.token, .expression 0], .argument),
    (["argument-list", "comma-then-expression*"], [], .arguments),
    (["argument-list"], [.expression 0, .arguments], .arguments),
    (["comma-then-expression*"], [.argument, .arguments], .arguments),
    (["and-expression-right", "or-expression-right"], [.operator 1, .expression 2], .link 1),
    (["equality-expression-right", "greater-expression-right", "less-expression-right"],
      [.operator 2, .expression 3], .link 2),
    (["additive-expression-right"], [.operator 3, .expression 4], .link 3),
    (["times-expression-right"], [.operator 4, .expression 5], .link 4),
    (["equality-or-greater-expression-right", "equality-or-less-expression-right"], [.link 2],
      .link 2),
    (["greater-expression-right-list", "less-expression-right-list"], [.links 2, .link 2, .links 2],
      .links 2)]

/-- Lists of operators of a rank with their right operands, those that can be empty first. -/
def linkLists : List (Nat × List String × List String) :=
  [(1, ["and-expression-right*", "or-expression-right*"],
      ["and-expression-right+", "or-expression-right+"]),
    (2, ["equality-expression-right*", "equality-or-greater-expression-right*",
      "equality-or-less-expression-right*"], ["equality-expression-right+"]),
    (3, ["additive-expression-right*"], []),
    (4, ["times-expression-right*"], [])]

def linkForms : Forms :=
  linkLists.flatMap fun (rank, stars, pluses) =>
    [(stars, [], .links rank), (stars ++ pluses, [.link rank, .links rank], .links rank)]

def forms : Forms :=
  expressionForms ++ wordForms ++ listForms ++ linkForms

/-- Something holds of all trees and values that fit some parts. -/
def ForFitting (goal : List (LR.Tree × Value) → Prop) : List Part → Prop
  | [] => goal []
  | part :: rest =>
    ∀ t v, part.Fits call t v → ForFitting (fun pairs => goal ((t, v) :: pairs)) rest

/-- What a production makes of parts that fit is fitting.  The path of a field needs parts with
places in order, and parts of a path have no place but that of their tree. -/
def Makes (lhs : String) (parts : List Part) (result : Part) : Prop :=
  ForFitting call (fun pairs => ∀ l,
    (lhs = "field-reference" → ∃ l, Location.merge (pairs.map (·.2.location)) = .ok l) →
    ∃ v, meaning ⟨lhs, pairs.map (·.1.symbol)⟩ (pairs.map (·.2)) = pure v ∧
      result.Fits call (.node ⟨lhs, pairs.map (·.1.symbol)⟩ (pairs.map (·.1)) l) v ∧
      (result ∈ [.reference, .paths] → v.location = none)) parts

section Makes

variable {call}

theorem meaning_plain {lhs : String} {rhs : List String} {cs : List Char} {parts : List Value}
    {v : Value} (plain : meaning ⟨lhs, rhs⟩ parts = plainMeaning lhs.toList.getLast? lhs parts)
    (spelled : lhs = String.ofList cs) (made : plainMeaning cs.getLast? lhs parts = pure v) :
    meaning ⟨lhs, rhs⟩ parts = pure v := by
  rw [plain, ← made, spelled, String.toList_ofList]

theorem meaning_reference (symbol : String) (r : Reference) :
    meaning ⟨"bottom-expression", [symbol]⟩ [.reference r] = match [symbol] with
      | ["constant-reference"] => pure (.expression (.constantReference r {}))
      | _ => pure (.expression (.builtinReference r {})) :=
  rfl

theorem meaning_name (call : String → List Sense → Sense) (symbol : String) (r : Reference) :
    ∃ e, meaning ⟨"bottom-expression", [symbol]⟩ [.reference r] = pure (.expression e) ∧
      sense call e = (· (spelling r)) := by
  rw [meaning_reference]
  split
  · exact ⟨_, rfl, rfl⟩
  · exact ⟨_, rfl, rfl⟩

theorem makes_expressionForms : ∀ form ∈ expressionForms, ∀ lhs ∈ form.1,
    Makes call lhs form.2.1 form.2.2 := by
  simp only [expressionForms, forall_mem_cons, not_mem_nil, false_implies, implies_true, and_true]
  and_intros
  -- Where nothing is joined, a text of the next rank is one of this rank too.
  iterate 4
    · rintro t _ ⟨e, rfl, reads⟩ l -
      exact ⟨_, meaning_plain rfl rfl rfl, ⟨e, rfl, reads.end⟩, nofun⟩
  iterate 3
    · rintro t _ ⟨e, rfl, reads⟩ l -
      exact ⟨_, meaning_plain rfl rfl rfl, ⟨e, rfl, reads.join (by decide) .nil⟩, nofun⟩
  · rintro t₁ _ ⟨c, rfl, isC⟩ t₂ _ ⟨_, rfl, -, isMark, isRank⟩ t₃ _ ⟨a, rfl, isA⟩ t₄ _
      ⟨_, rfl, -, isMark', isRank'⟩ t₅ _ ⟨b, rfl, isB⟩ l -
    exact ⟨_, meaning_plain rfl rfl rfl, ⟨_, rfl, isC.join (by decide)
      (.cons isMark isRank isA (.cons isMark' isRank' isB .nil))⟩, nofun⟩
  · rintro t₁ _ ⟨a, rfl, isA⟩ t₂ _ ⟨w, rfl, -, isMark, isRank⟩ t₃ _ ⟨b, rfl, isB⟩ l -
    refine ⟨_, meaning_plain rfl rfl rfl, ⟨_, rfl, ?_⟩, nofun⟩
    rw [sense_binary]
    exact isA.join (by decide) (.cons isMark isRank isB .nil)
  · rintro t₁ _ ⟨a, rfl, isA⟩ t₂ _ ⟨vs, l, rfl, linked⟩ l -
    refine ⟨_, meaning_plain rfl rfl rfl, ⟨_, rfl, ?_⟩, nofun⟩
    rw [sense_comparisonChain]
    exact isA.join (by decide) linked.end
  iterate 4
    · rintro t₁ _ ⟨a, rfl, isA⟩ t₂ _ ⟨vs, l, rfl, linked⟩ l -
      refine ⟨_, meaning_plain rfl rfl rfl, ⟨_, rfl, ?_⟩, nofun⟩
      rw [sense_leftChain]
      exact isA.join (by decide) linked.end
  -- A sign becomes an operator with a zero before it.
  · rintro t₁ _ ⟨w, rfl, isWord, -, isSign⟩ t₂ _ ⟨a, rfl, isA⟩ l -
    refine ⟨_, meaning_plain rfl rfl rfl, ⟨_, rfl, readsAt_operand ?_⟩, nofun⟩
    exact (congrArg₂ signed (wordOf_eq isWord) isA.2).trans
      ((sense_binary ..).trans (joined_zero isSign rfl _)).symm
  · rintro t₁ _ ⟨_, rfl, -⟩ t₂ _ ⟨a, rfl, isA⟩ t₃ _ ⟨_, rfl, -⟩ l -
    exact ⟨_, meaning_plain rfl rfl rfl, ⟨_, rfl, readsAt_operand isA.2⟩, nofun⟩
  · rintro t₁ _ ⟨w, rfl, isWord⟩ t₂ _ ⟨_, rfl, -⟩ t₃ _ ⟨vs, l, rfl, args⟩ t₄ _ ⟨_, rfl, -⟩ l -
    exact ⟨_, meaning_plain rfl rfl rfl, ⟨_, rfl, readsAt_operand
      ((congrArg₂ (called call) (wordOf_eq isWord) args).trans (sense_function ..).symm)⟩, nofun⟩
  iterate 2
    · rintro t _ ⟨n, rfl, reads⟩ l -
      exact ⟨_, meaning_plain rfl rfl rfl, ⟨_, rfl, reads.end⟩, nofun⟩
  · rintro t _ ⟨r, rfl, reads⟩ l -
    rcases meaning_name call t.symbol r with ⟨e, means, same⟩
    exact ⟨_, means, ⟨e, rfl, same ▸ reads.end⟩, nofun⟩
  -- The path of a field is the one form whose meaning merges locations, and so could fail.
  · rintro t₁ _ ⟨r, rfl, head⟩ t₂ _ ⟨vs, l, rfl, tails⟩ l merges
    rcases merges rfl with ⟨location, merged⟩
    refine ⟨_, congrArg (fun step => StateT.lift step >>= _) merged,
      ⟨_, rfl, readsAt_operand ?_⟩, nofun⟩
    exact congrArg (fun path (ρ : Environment) => ρ path) (by simp [head, tails])

theorem makes_wordForms : ∀ form ∈ wordForms, ∀ lhs ∈ form.1, Makes call lhs form.2.1 form.2.2 := by
  simp only [wordForms, forall_mem_cons, not_mem_nil, false_implies, implies_true, and_true]
  and_intros
  iterate 2
    · rintro t _ ⟨k, rfl, isWord⟩ l -
      exact ⟨_, rfl, ⟨_, rfl, readsAt_operand (by rw [wordOf_eq isWord]; rfl)⟩, nofun⟩
  · rintro t _ ⟨r, rfl, path⟩ l -
    exact ⟨_, rfl, ⟨_, rfl, readsAt_operand (by simp [path])⟩, nofun⟩
  · rintro t₁ _ ⟨r, rfl, head⟩ t₂ _ (dot : words t₂ = []) t₃ _ ⟨r', rfl, path⟩ l -
    exact ⟨_, rfl, ⟨_, rfl, readsAt_operand (by simp [spelling, head, dot, path])⟩, nofun⟩
  · rintro t _ ⟨w, rfl, isWord⟩ l -
    exact ⟨_, rfl, ⟨_, rfl, readsAt_operand (by simp [isWord, spelling])⟩, nofun⟩
  iterate 2
    · rintro t _ ⟨w, rfl, isWord⟩ l -
      exact ⟨_, rfl, ⟨_, rfl, by simp [words_node, spelling, isWord]⟩, fun _ => rfl⟩
  iterate 2
    · rintro t₁ _ ⟨w, rfl, isWord⟩ t₂ _ (dot : words t₂ = []) t₃ _ ⟨r, rfl, path⟩ l -
      exact ⟨_, rfl, ⟨_, rfl, by simp [words_node, spelling, isWord, path, dot]⟩, nofun⟩
  · rintro t₁ _ (dot : words t₁ = []) t₂ _ ⟨r, rfl, path⟩ l -
    exact ⟨_, rfl, ⟨_, rfl, by simp [words_node, path, dot]⟩, nofun⟩
  iterate 6
    · rintro t _ ⟨k, rfl, isWord⟩ l -
      exact ⟨_, meaning_plain rfl rfl rfl, ⟨_, rfl, by simp [words_node, isWord, textOf]⟩, nofun⟩
  all_goals
    rintro t _ ⟨k, rfl, isWord, isMark, isRank⟩ l -
    exact ⟨_, meaning_plain rfl rfl rfl, ⟨_, rfl, by simp [words_node, isWord, textOf],
      (append_nil _).trans isMark, isRank⟩, nofun⟩

theorem makes_listForms : ∀ form ∈ listForms, ∀ lhs ∈ form.1, Makes call lhs form.2.1 form.2.2 := by
  simp only [listForms, forall_mem_cons, not_mem_nil, false_implies, implies_true, and_true]
  and_intros
  · exact fun l _ => ⟨_, meaning_plain rfl rfl rfl, ⟨_, _, rfl, rfl⟩, fun _ => rfl⟩
  · rintro t₁ _ ⟨r, rfl, head⟩ t₂ _ ⟨vs, l, rfl, tail⟩ l -
    exact ⟨_, meaning_plain rfl rfl rfl, ⟨_, _, rfl, by
      simp [words_node, head, tail, Value.references, Value.elements]⟩, fun _ => rfl⟩
  · rintro t₁ _ ⟨k, rfl, -⟩ t₂ _ ⟨e, rfl, reads⟩ l -
    exact ⟨_, rfl, ⟨_, rfl, congrArg ([·]) reads.2⟩, nofun⟩
  iterate 2
    · exact fun l _ => ⟨_, rfl, ⟨_, _, rfl, rfl⟩, nofun⟩
  · rintro t₁ _ ⟨e, rfl, reads⟩ t₂ _ ⟨vs, l, rfl, rest⟩ l -
    exact ⟨_, rfl, ⟨_, _, rfl, congrArg₂ cons reads.2 rest⟩, nofun⟩
  · rintro t₁ _ ⟨e, rfl, same⟩ t₂ _ ⟨vs, l, rfl, rest⟩ l -
    exact ⟨_, meaning_plain rfl rfl rfl, ⟨_, _, rfl, congrArg₂ List.append same rest⟩, nofun⟩
  iterate 7
    · rintro t₁ _ ⟨w, rfl, -, isMark, isRank⟩ t₂ _ ⟨e, rfl, reads⟩ l -
      exact ⟨_, rfl, ⟨_, _, _, rfl, .cons isMark isRank reads .nil⟩, nofun⟩
  iterate 2
    · rintro t _ ⟨w, e, l, rfl, linked⟩ l -
      exact ⟨_, rfl, ⟨_, _, _, rfl, linked.end⟩, nofun⟩
  iterate 2
    · rintro t₁ _ ⟨vs, l, rfl, before⟩ t₂ _ ⟨w, e, l, rfl, linked⟩ t₃ _ ⟨vs', l, rfl, after⟩ l -
      refine ⟨_, rfl, ⟨_, _, rfl, ?_⟩, nofun⟩
      simpa [pieces, piecesOfAll, linksOf, Value.tails, Value.elements] using
        before.append (linked.append after.end)

theorem makes_linkForms : ∀ form ∈ linkForms, ∀ lhs ∈ form.1, Makes call lhs form.2.1 form.2.2 := by
  simp only [linkForms, linkLists, flatMap_cons, flatMap_nil, cons_append, nil_append,
    forall_mem_cons, not_mem_nil, false_implies, implies_true, and_true]
  and_intros
  all_goals first
    | exact fun l _ => ⟨_, meaning_plain rfl rfl rfl, ⟨_, _, rfl, .nil⟩, nofun⟩
    | rintro t₁ _ ⟨w, e, l, rfl, linked⟩ t₂ _ ⟨vs, l, rfl, rest⟩ l -
      exact ⟨_, meaning_plain rfl rfl rfl, ⟨_, _, rfl, linked.append rest.end⟩, nofun⟩

theorem makes_forms : ∀ form ∈ forms, ∀ lhs ∈ form.1, Makes call lhs form.2.1 form.2.2 := by
  simp only [forms, forall_mem_append]
  exact ⟨⟨⟨makes_expressionForms, makes_wordForms⟩, makes_listForms⟩, makes_linkForms⟩

end Makes

/-! ## The productions of the grammar -/

def formedSymbols : List String :=
  forms.flatMap (·.1)

def operators : List String :=
  ["?", ":", "&&", "||", "==", "!=", "<", "<=", ">", ">=", "+", "-", "*"]

def partOf (symbol : String) : Part :=
  if symbol = "\".\"" then .dot
  else match operators.find? (symbol = "\"" ++ · ++ "\"") with
    | some text => .mark (rankOf text)
    | none => (forms.find? (symbol ∈ ·.1)).elim .token (·.2.2)

/-- Terminals begin with a quote or a capital letter and end without a mark. -/
def looksTerminal (symbol : List Char) : Bool :=
  symbol.head?.any (fun c => c = '"' || c.isUpper) &&
    symbol.getLast?.any (fun c => c ∉ ['*', '+', '?'])

/-- A production has one of the forms, if it belongs to expressions at all. -/
def isFormed (lhs : List Char) (rhs : List (List Char)) : Bool :=
  !looksTerminal lhs && (String.ofList lhs ∉ formedSymbols ||
    (rhs.all fun symbol => String.ofList symbol ∈ formedSymbols || looksTerminal symbol) &&
      forms.any fun form => String.ofList lhs ∈ form.1 &&
        (rhs.map (partOf <| String.ofList ·), partOf (String.ofList lhs)) = form.2)

def isFormedRule (text : List Char) : Bool :=
  match Text.wordsFrom [] text with
  | lhs :: _ :: rhs => isFormed lhs rhs
  | _ => false

/-- The productions that follow from the marks of a symbol. -/
def markRules (symbol : List Char) : List (List Char × List (List Char)) :=
  let star := symbol ++ ['*']
  [(star, [symbol, star]), (star, []), (symbol ++ ['+'], [symbol, star]),
    (symbol ++ ['?'], [symbol]), (symbol ++ ['?'], [])]

theorem cons_eq_map {s : String} {rest : List String} {cs : List Char} {texts : List (List Char)}
    (first : s = String.ofList cs) (others : rest = texts.map String.ofList) :
    s :: rest = (cs :: texts).map String.ofList := by
  rw [first, others, map_cons]

theorem append_eq_ofList {s t : String} {cs ds : List Char} (first : s = String.ofList cs)
    (second : t = String.ofList ds) : s ++ t = String.ofList (cs ++ ds) := by
  rw [first, second, String.ofList_append]

-- The characters of a text are slow to find, so they are written down by unification.
theorem writtenRules_formed : ∃ texts : List (List Char),
    writtenRules = texts.map String.ofList ∧ texts.all isFormedRule = true := by
  apply Exists.intro
  constructor
  · dsimp only [writtenRules]
    repeat first | apply cons_eq_map (append_eq_ofList rfl rfl) | apply cons_eq_map rfl
    exact map_nil.symm
  · decide +kernel

theorem formedSymbols_formed : ∃ texts : List (List Char), formedSymbols = texts.map String.ofList ∧
    (texts.all fun s => !looksTerminal s &&
      (markRules s.dropLast).all fun r => r.1 ≠ s || isFormed r.1 r.2) = true := by
  apply Exists.intro
  constructor
  · dsimp only [formedSymbols, forms, expressionForms, wordForms, listForms, linkLists,
      linkForms, flatMap_cons, flatMap_nil, cons_append, nil_append]
    repeat apply cons_eq_map rfl
    exact map_nil.symm
  · decide +kernel

theorem formed_of_mem {symbol : List Char} (listed : String.ofList symbol ∈ formedSymbols) :
    looksTerminal symbol = false ∧
      ∀ r ∈ markRules symbol.dropLast, r.1 = symbol → isFormed r.1 r.2 := by
  rcases formedSymbols_formed with ⟨texts, same, each⟩
  rcases mem_map.1 (same ▸ listed) with ⟨text, isText, same⟩
  have formed := all_eq_true.1 each _ isText
  simpa [String.ofList_injective same, ← imp_iff_not_or] using formed

theorem isFormed_of_mem_markRules {symbol : List Char} {r : List Char × List (List Char)}
    (member : r ∈ markRules symbol) : isFormed r.1 r.2 := by
  have shape : r.1.dropLast = symbol ∧ looksTerminal r.1 = false := by
    simp only [markRules, mem_cons, not_mem_nil, or_false] at member
    rcases member with rfl | rfl | rfl | rfl | rfl <;> simp [looksTerminal]
  by_cases listed : String.ofList r.1 ∈ formedSymbols
  · exact (formed_of_mem listed).2 r (shape.1 ▸ member) rfl
  · rw [isFormed, shape.2, decide_eq_true listed]
    rfl

theorem isFormed_of_mem_productions {p : LR.Production} (listed : p ∈ productions) :
    ∃ lhs rhs, p = ⟨String.ofList lhs, rhs.map String.ofList⟩ ∧ isFormed lhs rhs := by
  rw [productions, mem_mergeSort, mem_append] at listed
  rcases listed with written | marks
  · rcases writtenRules_formed with ⟨texts, same, each⟩
    rw [writtenProductions, same, map_map] at written
    rcases mem_map.1 written with ⟨text, isText, rfl⟩
    have formed := all_eq_true.1 each text isText
    rw [isFormedRule] at formed
    rw [Function.comp, rule, Text.words, String.toList_ofList]
    split at formed
    · rename_i lhs _ rhs parts
      rw [parts]
      exact ⟨lhs, rhs, rfl, formed⟩
    · cases formed
  · have isMarkRule : ∃ s, ∃ r ∈ markRules s, p = ⟨String.ofList r.1, r.2.map String.ofList⟩ := by
      simp only [markProductions, mem_append, mem_flatMap, mem_map, mem_cons, not_mem_nil,
        or_false] at marks
      rcases marks with (⟨s, -, rfl | rfl⟩ | ⟨s, -, rfl⟩) | ⟨s, -, rfl | rfl⟩
      all_goals exact ⟨s.toList, by simp [markRules]⟩
    rcases isMarkRule with ⟨s, r, member, rfl⟩
    exact ⟨_, _, rfl, isFormed_of_mem_markRules member⟩

/-- A symbol of the grammar of expressions. -/
def Belongs (symbol : String) : Prop :=
  symbol ∈ formedSymbols ∨ looksTerminal symbol.toList

theorem form_of_mem_productions {p : LR.Production} (listed : p ∈ productions)
    (belongs : Belongs p.lhs) : (∀ symbol ∈ p.rhs, Belongs symbol) ∧
      ∃ form ∈ forms, p.lhs ∈ form.1 ∧ (p.rhs.map partOf, partOf p.lhs) = form.2 := by
  rcases isFormed_of_mem_productions listed with ⟨lhs, rhs, rfl, formed⟩
  simp only [isFormed, Bool.and_eq_true, Bool.not_eq_true', Bool.or_eq_true, all_eq_true,
    any_eq_true, decide_eq_true_eq] at formed
  rw [Belongs, String.toList_ofList, formed.1] at belongs
  rcases formed.2.resolve_left (not_not.2 (belongs.resolve_right nofun)) with
    ⟨within, form, isForm, left, same⟩
  refine ⟨?_, form, isForm, left, ?_⟩
  · simpa [Belongs] using within
  · rw [map_map]
    exact same

theorem find?_of_looksTerminal {symbol : String} (terminal : looksTerminal symbol.toList) :
    forms.find? (symbol ∈ ·.1) = none := by
  refine find?_eq_none.2 fun form listed member => ?_
  have isSymbol : symbol ∈ formedSymbols :=
    mem_flatMap.2 ⟨form, listed, of_decide_eq_true member⟩
  rw [← String.ofList_toList (s := symbol)] at isSymbol
  rw [(formed_of_mem isSymbol).1] at terminal
  cases terminal

/-! ## Parse trees -/

/-- A tree that a parser makes: terminals at its leaves, those in quotes with the text between
them, productions of the language at its nodes, each located from its first part to its last. -/
inductive Parsed : LR.Tree → Prop
  | leaf {t : LR.Token} (terminal : looksTerminal t.symbol.toList)
      (spelled : t.symbol.toList.head? = some '"' → t.symbol = "\"" ++ t.text ++ "\"") :
      Parsed (.leaf t)
  | node {p : LR.Production} {children : List LR.Tree} {location : Option Location}
      (rule : p ∈ productions) (symbols : children.map (·.symbol) = p.rhs)
      (merged : Location.merge (children.map (·.location)) = .ok location)
      (below : ∀ child ∈ children, Parsed child) : Parsed (.node p children location)

def translate (tree : LR.Tree) : MeaningM Value :=
  tree.fold meaningHandlers

theorem meaningOf_eq_ok {tree : LR.Tree} {v : Value} (translated : translate tree = pure v)
    (named : Nat) : meaningOf tree named = .ok (v, named) := by
  rw [translate] at translated
  rw [meaningOf, meaningAndRules, LR.Tree.transform_eq, translated]
  rfl

/-- What comes of a tree of the grammar of expressions. -/
def Translates (tree : LR.Tree) (v : Value) : Prop :=
  translate tree = pure v ∧ (partOf tree.symbol).Fits call tree v ∧
    (partOf tree.symbol ∈ [.reference, .paths] →
      v.location.filter Location.isKnown = tree.location.filter Location.isKnown)

theorem location_place (l : Option Location) (v : Value) : (v.place l).location = l := by
  cases v with
  | type t => cases t <;> rfl
  | attributeValue v => cases v <;> rfl
  | expression e => cases e <;> rfl
  | _ => rfl

theorem filter_location_settle {v : Value} (unplaced : v.location = none) (l : Option Location) :
    (v.settle l).location.filter Location.isKnown = l.filter Location.isKnown := by
  rcases l with _ | l
  · rw [Value.settle, unplaced]
  · rw [Value.settle]
    split
    · rw [location_place]
    · rename_i unknown
      rw [unplaced, Option.filter_none, Option.filter, if_neg unknown]

theorem merge_ok_of_known {before after : List (Option Location)} {l : Option Location}
    (same : before.map (·.filter Location.isKnown) = after.map (·.filter Location.isKnown))
    (merged : Location.merge before = .ok l) : Location.merge after = .ok l := by
  have known (ls : List (Option Location)) : ls.filterMap (·.filter Location.isKnown) =
      (ls.map (·.filter Location.isKnown)).filterMap id := by
    simp [filterMap_map]
  rw [Location.merge, known, ← same, ← known]
  exact merged

theorem words_leaf {t : LR.Token} (noDot : t.symbol ≠ "\".\"") : words (.leaf t) = [t.text] := by
  simp [words, LR.Tree.tokens, noDot]

theorem foldAll_eq {children : List LR.Tree} {value : LR.Tree → Value}
    (each : ∀ child ∈ children, translate child = pure (value child)) :
    LR.Tree.foldAll meaningHandlers children = pure (children.map value) := by
  induction children with
  | nil => rfl
  | cons child rest ih =>
    rcases forall_mem_cons.1 each with ⟨own, others⟩
    rw [LR.Tree.foldAll, ih others, pure_bind]
    exact congrArg (· >>= fun v => pure (v :: rest.map value)) own

theorem parts_of_fieldReference : ∀ form ∈ forms, "field-reference" ∈ form.1 →
    form.2.1 = [.reference, .paths] := by
  decide +kernel

section Translation

variable {call}

theorem Part.Fits.settle {part : Part} {t : LR.Tree} {v : Value} (fits : part.Fits call t v)
    (l : Option Location) : part.Fits call t (v.settle l) := by
  have kept (e : Expression) : sense call e = sense call (e.withLocation l) := by
    cases e <;> rfl
  rcases l with _ | l
  · exact fits
  · rw [Value.settle]
    split
    · cases part with
      | dot => exact fits
      | expression =>
        rcases fits with ⟨e, rfl, same⟩
        exact ⟨_, rfl, kept e ▸ same⟩
      | argument =>
        rcases fits with ⟨e, rfl, same⟩
        exact ⟨_, rfl, kept e ▸ same⟩
      | link =>
        rcases fits with ⟨w, e, l, rfl, same⟩
        exact ⟨_, _, _, rfl, same⟩
      | paths | arguments | links =>
        rcases fits with ⟨vs, l, rfl, same⟩
        exact ⟨_, _, rfl, same⟩
      | _ =>
        rcases fits with ⟨x, rfl, same⟩
        exact ⟨_, rfl, same⟩
    · exact fits

theorem fits_leaf {t : LR.Token} (terminal : looksTerminal t.symbol.toList)
    (spelled : t.symbol.toList.head? = some '"' → t.symbol = "\"" ++ t.text ++ "\"") :
    (partOf t.symbol).Fits call (.leaf t) (.token t) := by
  rw [partOf, find?_of_looksTerminal terminal]
  split
  · rename_i isDot
    show words _ = []
    simp [words, LR.Tree.tokens, isDot]
  · rename_i noDot
    split
    · rename_i text isMark
      have quoted : t.symbol = "\"" ++ text ++ "\"" := by simpa using find?_some isMark
      have isText := (spelled (by simp [quoted])).symm.trans quoted
      exact ⟨t, rfl, words_leaf noDot, rfl, congrArg rankOf (by simpa using isText)⟩
    · exact ⟨t, rfl, words_leaf noDot⟩

theorem ForFitting.apply {goal : List (LR.Tree × Value) → Prop} {pairs : List (LR.Tree × Value)}
    (all : ForFitting call goal (pairs.map fun x => partOf x.1.symbol))
    (each : ∀ x ∈ pairs, (partOf x.1.symbol).Fits call x.1 x.2) : goal pairs := by
  induction pairs generalizing goal with
  | nil => exact all
  | cons x rest ih =>
    rcases forall_mem_cons.1 each with ⟨own, others⟩
    exact ih (all x.1 x.2 own) others

theorem Parsed.translates {tree : LR.Tree} (parsed : Parsed tree) (belongs : Belongs tree.symbol) :
    ∃ v, Translates call tree v := by
  induction parsed with
  | leaf terminal spelled => exact ⟨_, rfl, fits_leaf terminal spelled, fun _ => rfl⟩
  | @node p children location rule symbols merged below ih =>
    rcases form_of_mem_productions rule belongs with ⟨within, ⟨_, _, _⟩, listed, left, same⟩
    cases same
    have each (child) (member : child ∈ children) : ∃ v, Translates call child v :=
      ih child member (within _ (symbols ▸ mem_map_of_mem member))
    choose! value isValue using each
    -- The locations of the parts are those of the trees, as far as they are known.
    have merges (isReference : p.lhs = "field-reference") :
        Location.merge (children.map fun t => (value t).location) = .ok location := by
      have parts := parts_of_fieldReference _ listed (isReference ▸ left)
      refine merge_ok_of_known ?_ merged
      rw [map_map, map_map]
      refine map_congr_left fun t member => ((isValue t member).2.2 ?_).symm
      rw [← parts, ← symbols, map_map]
      exact mem_map_of_mem member
    have makes : Makes call p.lhs (p.rhs.map partOf) (partOf p.lhs) := makes_forms _ listed _ left
    have pairs : (children.map fun t => (t, value t)).map (fun x => partOf x.1.symbol) =
        p.rhs.map partOf := by
      rw [← symbols, map_map, map_map]
      rfl
    rw [← pairs] at makes
    have made := makes.apply (by simpa using fun t member => (isValue t member).2.1) location
    simp only [map_map, Function.comp_def, map_id', symbols] at made
    rcases made fun isReference => ⟨_, merges isReference⟩ with ⟨v, means, fits, unplaced⟩
    refine ⟨v.settle location, ?_, fits.settle location, fun isPart =>
      filter_location_settle (unplaced isPart) location⟩
    rw [translate, LR.Tree.fold, foldAll_eq fun t member => (isValue t member).1, pure_bind]
    exact congrArg (· >>= fun v => pure (v.settle location)) means

end Translation

/-- From a parse tree of an expression an expression is made, and it has in every environment the
value that the text means. -/
theorem exists_sense_eq_meant {tree : LR.Tree} (parsed : Parsed tree)
    (isExpression : tree.symbol = expressionSymbol) (named : Nat) :
    ∃ e, meaningOf tree named = .ok (.expression e, named) ∧
      ∀ ρ, sense call e ρ = meant call tree ρ := by
  have belongs : Belongs tree.symbol := by
    rw [isExpression]
    exact .inl (by decide)
  rcases (parsed.translates belongs : ∃ v, Translates call tree v) with ⟨v, translated, fits, -⟩
  rw [isExpression] at fits
  rcases (fits : Part.Fits call (.expression 0) tree v) with ⟨e, rfl, reads⟩
  exact ⟨e, meaningOf_eq_ok translated named, fun ρ => (congrFun reads.2 ρ).symm⟩

/-! ## A number with a sign -/

namespace Sample

variable {lhs symbol : String} {first : LR.Tree} {children : List LR.Tree} {p : LR.Production}

def node (lhs : String) (children : List LR.Tree) : LR.Tree :=
  .node ⟨lhs, children.map (·.symbol)⟩ children none

theorem parsed_node (isRule : p = ⟨lhs, children.map (·.symbol)⟩)
    (written : p.text ∈ writtenRules ∧ rule p.text = p)
    (merged : Location.merge (children.map (·.location)) = .ok none)
    (below : ∀ child ∈ children, Parsed child) : Parsed (node lhs children) := by
  refine .node ?_ rfl merged below
  rw [← isRule, ← written.2, productions, mem_mergeSort]
  exact mem_append_left _ (mem_map_of_mem written.1)

/-- A chain with a single operand. -/
theorem parsed_chain (symbol : String) (isRule : p = ⟨lhs, [first.symbol, symbol ++ "*"]⟩)
    (written : p.text ∈ writtenRules ∧ rule p.text = p) (unplaced : first.location = none)
    (parsed : Parsed first) : Parsed (node lhs [first, node (symbol ++ "*") []]) := by
  have isMarked : symbol ∈ marked '*' := by
    rw [marked, mem_eraseDups, mem_flatMap]
    refine ⟨_, mem_map_of_mem written.1, mem_filterMap.2 ⟨symbol ++ "*", ?_, by simp⟩⟩
    rw [written.2, isRule]
    exact mem_cons_of_mem _ mem_cons_self
  have nothing : Parsed (node (symbol ++ "*") []) := by
    refine .node ?_ rfl rfl nofun
    rw [productions, mem_mergeSort, markProductions]
    simp [isMarked]
  refine parsed_node isRule written ?_
    (forall_mem_cons.2 ⟨parsed, forall_mem_singleton.2 nothing⟩)
  rw [map_cons, unplaced]
  rfl

def minusOne : LR.Tree :=
  node "expression" [node "choice-expression" [node "logical-expression" [
    node "comparison-expression" [node "additive-expression" [
      node "times-expression" [
        node "negation-expression" [
          node "additive-operator" [.leaf ⟨"\"-\"", "-", none⟩],
          node "bottom-expression" [node "numeric-constant" [.leaf ⟨"Number", "1", none⟩]]],
        node "times-expression-right*" []],
      node "additive-expression-right*" []]]]]]

theorem parsed_minusOne : Parsed minusOne := by
  iterate 4
    refine parsed_node rfl (by decide +kernel) rfl (forall_mem_singleton.2 ?_)
  refine parsed_chain "additive-expression-right" rfl (by decide +kernel) rfl ?_
  refine parsed_chain "times-expression-right" rfl (by decide +kernel) rfl ?_
  refine parsed_node rfl (by decide +kernel) rfl
    (forall_mem_cons.2 ⟨?_, forall_mem_singleton.2 ?_⟩)
  · refine parsed_node rfl (by decide +kernel) rfl (forall_mem_singleton.2 ?_)
    exact .leaf (by decide) (by decide)
  · iterate 2
      refine parsed_node rfl (by decide +kernel) rfl (forall_mem_singleton.2 ?_)
    exact .leaf (by decide) (by decide)

end Sample

open Sample in
/-- From the tree of `-1` the number is made. -/
theorem exists_sense_eq_meant_minusOne :
    ∃ e, meaningOf minusOne 0 = .ok (.expression e, 0) ∧
      ∀ ρ, sense (fun _ _ _ => none) e ρ = some (.int (-1)) :=
  exists_sense_eq_meant _ parsed_minusOne rfl 0

end BinaryLayout.Language
