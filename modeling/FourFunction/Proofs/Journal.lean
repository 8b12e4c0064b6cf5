import FourFunction.Calculator.Basic
import FourFunction.Proofs.Expression.Value

/-!
# What the journal tells

The journal of an evaluation shows how the expression is split, and then each term that is reduced,
in order, with its own split. The terms are reduced up to the first one that has no value. A text
that is refused for its characters leaves no line.

Of the commands, only calculating writes to the journal: the lines of the evaluation, and one more
line that tells how it ended, with the expression as it was before it was replaced.

## Main results

* `records_evaluate`: the records of an evaluation;
* `Calculator.records_pressAll`: the records of a run of commands;
* `journal_tells_calculations`: the lines of both.
-/

namespace FourFunction

/-! ## Lines -/

/-- What a record shows. -/
structure Line where
  level : Level
  message : String
  fields : List (String × FieldValue)
deriving DecidableEq

/-- The line that a record is shown as. -/
def Record.line (r : Record) : Line := ⟨r.level, r.message, r.fields⟩

/-- The line of an expression that is split into signs and terms. -/
def sumLine (text : Text) : Line :=
  ⟨.trace, "découpe additive", [("jetons", .text (Token.listing (Token.split (σ := Sign) text)))]⟩

/-- The line of a term that is split into factors and their operators. -/
def termLine (term : Text) : Line :=
  ⟨.trace, "découpe multiplicative",
    [("terme", .text term), ("jetons", .text (Token.listing (Token.split (σ := FactorOp) term)))]⟩

/-- The line of a calculation that has ended. -/
def outcomeLine (text : Text) : Line :=
  match (evaluate text).value with
  | .ok x => ⟨.debug, "calcul",
      [("expression", .text text), ("valeur", .double x), ("affichage", .text x.display)]⟩
  | .error err => ⟨.debug, "évaluation refusée",
      [("expression", .text text), ("erreur", .text err.message)]⟩

/-! ## The records of an evaluation -/

namespace Evaluation

variable {α β : Type} {x : Evaluation α} {a : α} {err : EvalError}

/-- What comes after a computation that is not refused goes on with its journal. -/
theorem records_bind_of_ok (h : x.run.value = .ok a) (f : α → Evaluation β) :
    (x >>= f).run.records = x.run.records ++ (f a).run.records := by
  rw [ExceptT.run_bind, Logged.records_bind, h]

/-- Nothing comes after a computation that is refused. -/
theorem records_bind_of_error (h : x.run.value = .error err) (f : α → Evaluation β) :
    (x >>= f).run.records = x.run.records := by
  rw [ExceptT.run_bind, Logged.records_bind, h, Logged.records_pure, List.append_nil]

end Evaluation

/-- The text of a token that is no operator. -/
def Token.piece? {σ : Type} : Token σ → Option Text
  | op _ => none
  | piece text => some text

/-- The terms of an expression, from left to right. -/
def terms (text : Text) : List Text := (Token.split (σ := Sign) text).filterMap Token.piece?

/-- The terms that are reduced, one after the other until one has no value. -/
def reducedTerms : List Text → List Text
  | [] => []
  | term :: rest => term :: if (Term.value term).isOk then reducedTerms rest else []

/-- The record of a term that is reduced. -/
def termRecord (term : Text) : Record := .termSplit term (Token.split term)

section Evaluation

variable {text term : Text} {before after : List Text} {x : Binary64} {err : EvalError}

/-- After a term with a value the next one is reduced. -/
theorem reducedTerms_cons_of_ok (h : Term.value term = .ok x) :
    reducedTerms (term :: after) = term :: reducedTerms after := by
  rw [reducedTerms, h]
  rfl

/-- After a term without a value no other is reduced. -/
theorem reducedTerms_cons_of_error (h : Term.value term = .error err) :
    reducedTerms (term :: after) = [term] := by
  rw [reducedTerms, h]
  rfl

/-- Terms that have a value are reduced, and so are those behind them. -/
theorem reducedTerms_append (hbefore : ∀ t ∈ before, ∃ x, Term.value t = .ok x) :
    reducedTerms (before ++ after) = before ++ reducedTerms after := by
  induction before with
  | nil => rfl
  | cons term before ih =>
    obtain ⟨⟨x, hterm⟩, hrest⟩ := List.forall_mem_cons.1 hbefore
    rw [List.cons_append, reducedTerms_cons_of_ok hterm, ih hrest, List.cons_append]

theorem reducedTerms_eq_self (h : ∀ t ∈ before, ∃ x, Term.value t = .ok x) :
    reducedTerms before = before := by
  rw [← List.append_nil before, reducedTerms_append h, reducedTerms]

/-- A run over tokens writes a record of each term that is reduced. -/
theorem RunningSum.records_foldlM_step (tokens : List (Token Sign)) (sum : RunningSum) :
    (tokens.foldlM step sum).run.records =
      (reducedTerms (tokens.filterMap Token.piece?)).map termRecord := by
  induction tokens generalizing sum with
  | nil => rfl
  | cons token rest ih =>
    have hvalue := value_step sum token
    rw [List.foldlM_cons]
    cases token with
    | op sign =>
      rw [next_op] at hvalue
      rw [Evaluation.records_bind_of_ok hvalue]
      exact ih _
    | piece term =>
      have hrecord : (sum.step (.piece term)).run.records = [termRecord term] := rfl
      have hterms : (Token.piece term :: rest).filterMap Token.piece? =
          term :: rest.filterMap Token.piece? := List.filterMap_cons_some rfl
      rw [hterms]
      -- a term without a value ends the run
      cases hterm : Term.value term with
      | ok x =>
        rw [next_piece_of_ok hterm] at hvalue
        rw [Evaluation.records_bind_of_ok hvalue, hrecord, ih, reducedTerms_cons_of_ok hterm]
        rfl
      | error err =>
        rw [next_piece_of_error hterm] at hvalue
        rw [Evaluation.records_bind_of_error hvalue, hrecord, reducedTerms_cons_of_error hterm]
        rfl

/-- The records of a sum: how it is split, then the terms that are reduced. -/
theorem records_evaluateSum (text : Text) : (evaluateSum text).run.records =
    .sumSplit (Token.split text) :: (reducedTerms (terms text)).map termRecord := by
  let split : Evaluation Unit := record (.sumSplit (Token.split text))
  let fold : Evaluation RunningSum := (Token.split text).foldlM RunningSum.step {}
  have hsplit : split.run.value = .ok () ∧ split.run.records = [.sumSplit (Token.split text)] :=
    ⟨rfl, rfl⟩
  have hfold : fold.run.records = (reducedTerms (terms text)).map termRecord :=
    RunningSum.records_foldlM_step _ _
  -- testing the finished sum writes nothing
  have hresult : (fold >>= fun sum => liftM sum.result).run.records = fold.run.records := by
    cases hvalue : fold.run.value with
    | ok sum =>
      have hnone : (liftM sum.result : Evaluation Binary64).run.records = [] := by
        cases sum.result <;> rfl
      rw [Evaluation.records_bind_of_ok hvalue, hnone, List.append_nil]
    | error err => rw [Evaluation.records_bind_of_error hvalue]
  calc (evaluateSum text).run.records
      = (split >>= fun _ => fold >>= fun sum => liftM sum.result).run.records := rfl
    _ = split.run.records ++ (fold >>= fun sum => liftM sum.result).run.records :=
      Evaluation.records_bind_of_ok hsplit.1 _
    _ = .sumSplit (Token.split text) :: (reducedTerms (terms text)).map termRecord := by
      rw [hsplit.2, hresult, hfold, List.singleton_append]

/-- An expression in the alphabet is split, and then its terms up to the first without a value. -/
theorem records_evaluate (hne : text ≠ []) (hchars : ∀ c ∈ text, InAlphabet c) :
    (evaluate text).records =
      .sumSplit (Token.split text) :: (reducedTerms (terms text)).map termRecord := by
  rw [evaluate, alphabetError?_eq_none hne hchars]
  exact records_evaluateSum text

/-- A text that is refused for its characters is not split. -/
theorem records_evaluate_eq_nil (h : text = [] ∨ ∃ c ∈ text, ¬ InAlphabet c) :
    (evaluate text).records = [] := by
  have hsome : ∃ err, alphabetError? text = some err := by
    rcases inAlphabet_or_exists_first text with hchars | ⟨front, c, back, rfl, hfront, hc⟩
    · rcases h with rfl | ⟨c, hmem, hc⟩
      · exact ⟨.empty, rfl⟩
      · exact absurd (hchars c hmem) hc
    · exact ⟨_, alphabetError?_eq_unexpectedChar hfront hc⟩
  obtain ⟨err, herr⟩ := hsome
  rw [evaluate, herr]
  rfl

end Evaluation

/-! ## The records of a run -/

/-- The record of how the calculation of a text ends. -/
def outcomeRecord (text : Text) : Record :=
  match (evaluate text).value with
  | .ok x => .calculated text x x.display
  | .error err => .refused text err

namespace Entry

variable {entry : Entry} {x : Binary64} {err : EvalError}

/-- A calculation that succeeds adds a record of its own. -/
theorem records_calculate_of_ok (h : (evaluate entry.text).value = .ok x) :
    entry.calculate.records =
      (evaluate entry.text).records ++ [.calculated entry.text x x.display] := by
  rw [calculate, Logged.records_bind, h]
  rfl

theorem records_calculate_of_error (h : (evaluate entry.text).value = .error err) :
    entry.calculate.records = (evaluate entry.text).records := by
  rw [calculate, Logged.records_bind, h]
  exact List.append_nil _

end Entry

namespace Calculator

/-- The expressions that commands calculate, in order: the entry at each `=`. -/
def calculations (calculator : Calculator) : List Command → List Text
  | [] => []
  | command :: commands =>
    let later := calculations (calculator.press command).value commands
    if command = .equals then calculator.entry.text :: later else later

/-- Calculating writes the records of the evaluation, and then how it ended. -/
theorem records_equals (calculator : Calculator) :
    calculator.equals.records = (evaluate calculator.entry.text).records ++
      [outcomeRecord calculator.entry.text] := by
  rw [equals, Logged.records_bind, outcomeRecord]
  -- a value is recorded before the entry is replaced, a refusal after the entry was kept
  cases hvalue : (evaluate calculator.entry.text).value with
  | ok x =>
    rw [Entry.value_calculate_of_ok hvalue, Entry.records_calculate_of_ok hvalue]
    exact List.append_nil _
  | error err =>
    rw [Entry.value_calculate_of_error hvalue, Entry.records_calculate_of_error hvalue]
    rfl

/-- No other command writes anything. -/
theorem records_press {command : Command} (h : command ≠ .equals) (calculator : Calculator) :
    (calculator.press command).records = [] := by
  cases command with
  | equals => exact absurd rfl h
  | _ => rfl

/-- The journal of a run is the journal of its calculations. -/
theorem records_pressAll (calculator : Calculator) (commands : List Command) :
    (calculator.pressAll commands).records =
      (calculator.calculations commands).flatMap fun text =>
        (evaluate text).records ++ [outcomeRecord text] := by
  induction commands generalizing calculator with
  | nil => rfl
  | cons command commands ih =>
    rw [pressAll_cons, Logged.records_bind, ih, calculations]
    by_cases h : command = .equals
    · subst h
      rw [if_pos rfl, List.flatMap_cons, ← records_equals]
      rfl
    · rw [if_neg h, records_press h, List.nil_append]

end Calculator

theorem line_outcomeRecord (text : Text) : (outcomeRecord text).line = outcomeLine text := by
  unfold outcomeRecord outcomeLine
  cases (evaluate text).value <;> rfl

/-- The lines of the evaluation of a text of the alphabet. -/
theorem lines_evaluate {text : Text} (hne : text ≠ []) (hchars : ∀ c ∈ text, InAlphabet c) :
    (evaluate text).records.map Record.line =
      sumLine text :: (reducedTerms (terms text)).map termLine := by
  rw [records_evaluate hne hchars, List.map_cons, List.map_map]
  rfl

/-- The journal tells exactly what was calculated. An expression that is empty or not in the alphabet
leaves no line when it is evaluated. Any other leaves one line of its split and one of each term that
is reduced: of all its terms, or of those up to the first one that has no value. Commands leave the
lines of the expressions that they calculate, in order, each followed by one line of how the
calculation ended, and nothing else. -/
theorem journal_tells_calculations :
    (∀ text, (text = [] ∨ ∃ c ∈ text, ¬ InAlphabet c) → (evaluate text).records = []) ∧
      (∀ text, text ≠ [] → (∀ c ∈ text, InAlphabet c) →
        ((∀ term ∈ terms text, ∃ x, Term.value term = .ok x) →
          (evaluate text).records.map Record.line = sumLine text :: (terms text).map termLine) ∧
        ∀ before term after err, terms text = before ++ term :: after →
          (∀ t ∈ before, ∃ x, Term.value t = .ok x) → Term.value term = .error err →
          (evaluate text).records.map Record.line =
            sumLine text :: (before ++ [term]).map termLine) ∧
      ∀ (calculator : Calculator) (commands : List Command),
        (calculator.pressAll commands).records.map Record.line =
          (calculator.calculations commands).flatMap fun text =>
            (evaluate text).records.map Record.line ++ [outcomeLine text] := by
  refine ⟨?_, ?_, ?_⟩
  · intro text h
    exact records_evaluate_eq_nil h
  · intro text hne hchars
    rw [lines_evaluate hne hchars]
    constructor
    · intro hterms
      rw [reducedTerms_eq_self hterms]
    · intro before term after err hterms hbefore hterm
      rw [hterms, reducedTerms_append hbefore, reducedTerms_cons_of_error hterm]
  · intro calculator commands
    rw [Calculator.records_pressAll, List.map_flatMap]
    apply List.flatMap_congr
    intro text _
    rw [List.map_append, List.map_singleton, line_outcomeRecord]

/-- A blank, two terms that have a value, and three of which the second is a lone point, divided. -/
theorem journal_tells_calculations_lone_point :
    (evaluate "2 + 2".toList).records = [] ∧
      (evaluate "2*3-4".toList).records.map Record.line =
        sumLine "2*3-4".toList :: ["2*3".toList, "4".toList].map termLine ∧
      (evaluate "2*3+./1-4".toList).records.map Record.line =
        sumLine "2*3+./1-4".toList :: ["2*3".toList, "./1".toList].map termLine := by
  obtain ⟨hblank, hterms, -⟩ := journal_tells_calculations
  have hsix : ∃ x, Term.value "2*3".toList = .ok x := ⟨.round false 6, by decide +kernel⟩
  have hfour : ∃ x, Term.value "4".toList = .ok x := ⟨.round false 4, by decide +kernel⟩
  refine ⟨hblank _ (Or.inr ⟨' ', by decide, ?_⟩), ?_, ?_⟩
  · rw [← isExpressionChar_iff]
    decide
  · obtain ⟨hall, -⟩ := hterms "2*3-4".toList (by decide) (inAlphabet_of_all (by decide))
    have hsplit : terms "2*3-4".toList = ["2*3".toList, "4".toList] := by decide
    rw [hsplit] at hall
    exact hall (List.forall_mem_cons.2 ⟨hsix, List.forall_mem_singleton.2 hfour⟩)
  · obtain ⟨-, hfault⟩ := hterms "2*3+./1-4".toList (by decide) (inAlphabet_of_all (by decide))
    exact hfault ["2*3".toList] "./1".toList ["4".toList] (.badLiteral ['.']) (by decide)
      (List.forall_mem_singleton.2 hsix) (by decide +kernel)

end FourFunction
