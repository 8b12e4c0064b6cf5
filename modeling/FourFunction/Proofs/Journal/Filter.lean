import FourFunction.Journal.Filter
import Mathlib.Data.Char
import Mathlib.Data.List.Induction
import Mathlib.Data.List.Lex
import Mathlib.Data.Prod.Lex
import Mathlib.Order.WithBot

/-!
# Which records a filter keeps

A filter is read directive by directive, up to the first that cannot be read. Scopes are in a linear
order of how specific they are, up to scopes that are equally so, and the directive that decides
about a record is the last of the most specific ones among those whose scope holds it.

## Main results

* `JournalFilter.ofText_eq_error_iff`: which fault a filter is refused for;
* `JournalFilter.decisive?_eq_some_iff`: which directive decides;
* `JournalFilter.Decides.isSpanless`: none that names a span or asks for the value of a field;
* `JournalFilter.keeps_iff`: which records are kept.
-/

namespace FourFunction

/-! ## Reading one after the other -/

section Reading

variable {α β ε : Type} {f : α → Except ε β} {a : α} {as : List α} {b : β} {bs : List β} {e : ε}

theorem mapM_cons_of_error (h : f a = .error e) : (a :: as).mapM f = .error e := by
  rw [List.mapM_cons, h]
  rfl

theorem mapM_cons_of_ok (h : f a = .ok b) : (a :: as).mapM f = (as.mapM f).map (b :: ·) := by
  rw [List.mapM_cons, h]
  cases as.mapM f <;> rfl

/-- A list is read if each of its elements is. -/
theorem mapM_eq_ok_iff : as.mapM f = .ok bs ↔ as.map f = bs.map Except.ok := by
  induction as generalizing bs with
  | nil => cases bs <;> simp [List.mapM_nil, pure, Except.pure]
  | cons a as ih =>
    cases ha : f a with
    | error err =>
      rw [mapM_cons_of_error ha, List.map_cons, ha]
      cases bs <;> simp
    | ok b =>
      rw [mapM_cons_of_ok ha, List.map_cons, ha]
      cases bs with
      | nil => cases as.mapM f <;> simp [Except.map]
      | cons b' bs =>
        rw [List.map_cons, List.cons_eq_cons, ← ih]
        cases as.mapM f <;> simp [Except.map]

/-- The first element that cannot be read decides why the list cannot be. -/
theorem mapM_eq_error_iff : as.mapM f = .error e ↔ ∃ before a after, as = before ++ a :: after ∧
    (∀ b ∈ before, ∃ c, f b = .ok c) ∧ f a = .error e := by
  constructor
  · intro h
    induction as with
    | nil => cases h
    | cons a as ih =>
      cases ha : f a with
      | error err =>
        rw [mapM_cons_of_error ha, Except.error.injEq] at h
        exact ⟨[], a, as, rfl, List.forall_mem_nil _, by rw [ha, h]⟩
      | ok b =>
        rw [mapM_cons_of_ok ha] at h
        cases hrest : as.mapM f with
        | ok bs => rw [hrest] at h; cases h
        | error err =>
          rw [hrest] at h
          obtain rfl := Except.error.inj h
          obtain ⟨before, a', after, rfl, hbefore, ha'⟩ := ih hrest
          exact ⟨a :: before, a', after, rfl, List.forall_mem_cons.2 ⟨⟨b, ha⟩, hbefore⟩, ha'⟩
  · rintro ⟨before, a, after, rfl, hbefore, ha⟩
    induction before with
    | nil => exact mapM_cons_of_error ha
    | cons b before ih =>
      obtain ⟨⟨c, hc⟩, hrest⟩ := List.forall_mem_cons.1 hbefore
      rw [List.cons_append, mapM_cons_of_ok hc, ih hrest]
      rfl

end Reading

/-! ## How specific a scope is -/

namespace Scope

variable {scope other : Scope}

/-- What scopes are compared by: the length of the target, and then the name of the field, no field
coming before every name. -/
def specificity (scope : Scope) : ℕ ×ₗ WithBot Text :=
  toLex (scope.targetRank, scope.field.elim ⊥ fun field => (field.name : WithBot Text))

/-- A scope refines another one if it is at least as specific. -/
theorem refines_iff : scope.refines other = true ↔ other.specificity ≤ scope.specificity := by
  rw [refines, specificity, specificity, Prod.Lex.toLex_le_toLex]
  split
  · next heq =>
    simp only [heq, lt_irrefl, true_and, false_or]
    rcases scope.field with _ | field <;> rcases other.field with _ | otherField
    · simp
    · simp
    · simp
    -- two names are in the order of their characters
    · have hlex : List.lex field.name otherField.name (fun c d => decide (c.toNat < d.toNat)) =
          true ↔ field.name < otherField.name := List.lex_eq_true_iff_lt
      simp only [Option.elim_some, WithBot.coe_le_coe]
      rw [← not_lt, ← hlex]
      simp
  · next hne =>
    rw [decide_eq_true_eq, or_iff_left fun h => hne h.1.symm]

end Scope

/-! ## The directive that decides -/

namespace JournalFilter

variable {filter : JournalFilter} {subject : Subject} {d : Directive}

/-- The faults of a filter are those of its first directive that cannot be read. -/
theorem ofText_eq_error_iff {text : Text} {fault : DirectiveFault} :
    ofText text = .error fault ↔ ∃ before piece after, pieces text = before ++ piece :: after ∧
      (∀ other ∈ before, ∃ d, Directive.ofText other = .ok d) ∧
        Directive.ofText piece = .error fault :=
  mapM_eq_error_iff

/-- A directive is kept through others that are less specific. -/
theorem foldl_moreSpecific_of_lt {after : List Directive}
    (h : ∀ e ∈ after, e.scope.specificity < d.scope.specificity) :
    after.foldl moreSpecific (some d) = some d := by
  induction after with
  | nil => rfl
  | cons e after ih =>
    obtain ⟨he, hafter⟩ := List.forall_mem_cons.1 h
    have hrefines : e.scope.refines d.scope = false := by
      rw [Bool.eq_false_iff, ne_eq, Scope.refines_iff]
      exact not_le.2 he
    rw [List.foldl_cons, moreSpecific, if_neg (by simp [hrefines])]
    exact ih hafter

/-- A directive replaces one that is no more specific. -/
theorem moreSpecific_of_le {first : Option Directive}
    (h : ∀ e ∈ first, e.scope.specificity ≤ d.scope.specificity) :
    moreSpecific first d = some d := by
  cases first with
  | none => rfl
  | some e => exact if_pos (Scope.refines_iff.2 (h e rfl))

/-- Of two directives one is kept. -/
theorem moreSpecific_cases (first : Option Directive) (later : Directive) :
    moreSpecific first later = some later ∨ moreSpecific first later = first := by
  cases first with
  | none => exact .inl rfl
  | some e =>
    rw [moreSpecific]
    split
    · exact .inl rfl
    · exact .inr rfl

theorem mem_of_foldl_moreSpecific {before : List Directive} {first : Option Directive}
    (h : before.foldl moreSpecific first = some d) : d ∈ before ∨ first = some d := by
  induction before generalizing first with
  | nil => exact .inr h
  | cons e before ih =>
    rcases ih h with hmem | hfirst
    · exact .inl (List.mem_cons_of_mem e hmem)
    · rcases moreSpecific_cases first e with hlater | hkept
      · rw [hlater] at hfirst
        obtain rfl := Option.some.inj hfirst
        exact .inl (List.mem_cons_self ..)
      · exact .inr (hkept ▸ hfirst)

/-- The search ends with a directive that is no less specific than those before it and more specific
than those after it. -/
theorem foldl_moreSpecific_eq {before after : List Directive}
    (hbefore : ∀ e ∈ before, e.scope.specificity ≤ d.scope.specificity)
    (hafter : ∀ e ∈ after, e.scope.specificity < d.scope.specificity) :
    (before ++ d :: after).foldl moreSpecific none = some d := by
  have hfirst : ∀ e ∈ before.foldl moreSpecific none, e.scope.specificity ≤ d.scope.specificity :=
    fun e he => hbefore e ((mem_of_foldl_moreSpecific he).resolve_right nofun)
  rw [List.foldl_append, List.foldl_cons, moreSpecific_of_le hfirst,
    foldl_moreSpecific_of_lt hafter]

/-- Of some directives one is the last of the most specific. -/
theorem exists_last_most_specific {directives : List Directive} (hne : directives ≠ []) :
    ∃ before d after, directives = before ++ d :: after ∧
      (∀ e ∈ before, e.scope.specificity ≤ d.scope.specificity) ∧
        ∀ e ∈ after, e.scope.specificity < d.scope.specificity := by
  induction directives using List.reverseRecOn with
  | nil => exact absurd rfl hne
  | append_singleton directives last ih =>
    rcases eq_or_ne directives [] with rfl | hdirectives
    · exact ⟨[], last, [], rfl, List.forall_mem_nil _, List.forall_mem_nil _⟩
    obtain ⟨before, d, after, rfl, hbefore, hafter⟩ := ih hdirectives
    -- one more directive takes over if it is as specific as the one found so far
    rcases le_or_gt d.scope.specificity last.scope.specificity with hle | hlt
    · refine ⟨before ++ d :: after, last, [], rfl, ?_, List.forall_mem_nil _⟩
      simp only [List.forall_mem_append, List.forall_mem_cons]
      exact ⟨fun e he => (hbefore e he).trans hle, hle, fun e he => (hafter e he).le.trans hle⟩
    · refine ⟨before, d, after ++ [last], by simp, hbefore, ?_⟩
      simp only [List.forall_mem_append, List.forall_mem_singleton]
      exact ⟨hafter, hlt⟩

/-- The directive decides about a record. Its scope holds the record, and of the other directives of
which that is true, those before it are no more specific and those after it less. -/
def Decides (filter : JournalFilter) (subject : Subject) (d : Directive) : Prop :=
  ∃ before after, filter = before ++ d :: after ∧ d.scope.holds subject = true ∧
    (∀ e ∈ before, e.scope.holds subject = true → e.scope.specificity ≤ d.scope.specificity) ∧
      ∀ e ∈ after, e.scope.holds subject = true → e.scope.specificity < d.scope.specificity

/-- The directive that is found is the one that decides, so there is one at most. -/
theorem decisive?_eq_some_iff : filter.decisive? subject = some d ↔ filter.Decides subject d := by
  rw [decisive?]
  constructor
  · intro h
    have hne : filter.filter (·.scope.holds subject) ≠ [] := by
      intro hnil
      rw [hnil] at h
      cases h
    obtain ⟨before, d', after, heq, hbefore, hafter⟩ := exists_last_most_specific hne
    rw [heq, foldl_moreSpecific_eq hbefore hafter] at h
    obtain rfl := Option.some.inj h
    -- the directives between those that hold the record do not count
    obtain ⟨front, back, rfl, rfl, hback⟩ := List.filter_eq_append_iff.1 heq
    obtain ⟨skipped, rest, rfl, hskipped, hholds, rfl⟩ := List.filter_eq_cons_iff.1 hback
    refine ⟨front ++ skipped, rest, by simp, hholds, ?_, ?_⟩
    · intro e he heholds
      rcases List.mem_append.1 he with hfront | hskip
      · exact hbefore e (List.mem_filter.2 ⟨hfront, heholds⟩)
      · exact absurd heholds (hskipped e hskip)
    · exact fun e he heholds => hafter e (List.mem_filter.2 ⟨he, heholds⟩)
  · rintro ⟨before, after, rfl, hholds, hbefore, hafter⟩
    rw [List.filter_append, List.filter_cons, if_pos hholds]
    refine foldl_moreSpecific_eq (fun e he => ?_) fun e he => ?_
    · exact hbefore e (List.mem_filter.1 he).1 (List.mem_filter.1 he).2
    · exact hafter e (List.mem_filter.1 he).1 (List.mem_filter.1 he).2

/-- No directive decides that names a span or asks for the value of a field. -/
theorem Decides.isSpanless (h : filter.Decides subject d) :
    d.scope.span = none ∧ ∀ field ∈ d.scope.field, field.hasValue = false := by
  obtain ⟨-, -, -, hholds, -, -⟩ := h
  simp only [Scope.holds, Scope.isSpanless, Bool.and_eq_true, Option.isNone_iff_eq_none] at hholds
  obtain ⟨⟨⟨hspan, hfield⟩, -⟩, -⟩ := hholds
  refine ⟨hspan, fun field hmem => ?_⟩
  rw [Option.mem_def.1 hmem] at hfield
  simpa using hfield

/-- Of a single directive, it decides about the records in its scope. -/
theorem decides_singleton_iff {e : Directive} :
    Decides [d] subject e ↔ e = d ∧ d.scope.holds subject = true := by
  constructor
  · rintro ⟨before, after, heq, hholds, -, -⟩
    obtain ⟨rfl, hcons⟩ | ⟨rfl, hnil⟩ := List.singleton_eq_append_iff.1 heq
    · obtain ⟨rfl, -⟩ := List.cons.inj hcons
      exact ⟨rfl, hholds⟩
    · cases hnil
  · rintro ⟨rfl, hholds⟩
    exact ⟨[], [], rfl, hholds, List.forall_mem_nil _, List.forall_mem_nil _⟩

/-- Only errors are up to `error`. -/
theorem keeps_upTo_error_iff {level : Level} :
    Threshold.keeps (.upTo .error) level = true ↔ level = .error := by
  cases level <;> decide

/-- A record is kept if the directive that decides about it keeps its level. -/
theorem keeps_of_decides (h : filter.Decides subject d) :
    filter.keeps subject = d.threshold.keeps subject.level := by
  have hne : filter.isEmpty = false := by
    obtain ⟨before, after, rfl, -⟩ := h
    simp
  rw [keeps, hne, decisive?_eq_some_iff.2 h]
  rfl

/-- A filter without directives keeps errors. Any other keeps what the directive that decides
keeps, and nothing where none does. -/
theorem keeps_iff : filter.keeps subject = true ↔
    (filter = [] ∧ subject.level = .error) ∨
      ∃ d, filter.Decides subject d ∧ d.threshold.keeps subject.level = true := by
  rw [keeps]
  rcases eq_or_ne filter [] with rfl | hne
  · rw [List.isEmpty_nil, if_pos rfl, keeps_upTo_error_iff]
    simp [Decides]
  · rw [if_neg (by simpa using hne)]
    simp only [hne, false_and, false_or, ← decisive?_eq_some_iff]
    cases filter.decisive? subject <;> simp

end JournalFilter

end FourFunction
