import FourFunction.Proofs.Journal.Directive
import FourFunction.Startup

/-!
# What a start prints

A start announces the calculator or prints nothing. A setting of the user is in force if it can be
read. Without one, or if its first directive that cannot be read is malformed, the default filter is;
if that directive would be cut inside a character, the program ends. Under the filter in force the
announcement is printed if the directive that decides about it keeps `info` records.

## Main results

* `startup_eq_announcement_iff`: the settings under which a start announces the calculator;
* `startup_written_iff`: one directive without brackets;
* `startup_intercalate_iff`: directives of which some are for the calculator's own target;
* `ofText_defaultFilter`: the setting that the default filter stands for.
-/

namespace FourFunction

variable {setting : Option Text} {text : Text} {filter : JournalFilter} {d : Directive}

/-! ## The filter in force -/

/-- Without a setting the default filter is in force. -/
theorem filterOf?_none : filterOf? none = some defaultFilter := rfl

/-- A setting that can be read is the filter in force. -/
theorem filterOf?_of_ok (h : JournalFilter.ofText text = .ok filter) :
    filterOf? (some text) = some filter := by
  rw [filterOf?, Option.map_some, h]

/-- A malformed setting gives way to the default filter. -/
theorem filterOf?_of_malformed (h : JournalFilter.ofText text = .error .malformed) :
    filterOf? (some text) = some defaultFilter := by
  rw [filterOf?, Option.map_some, h]

/-- A setting that would be cut inside a character ends the program. -/
theorem filterOf?_of_splitCharacter (h : JournalFilter.ofText text = .error .splitCharacter) :
    filterOf? (some text) = none := by
  rw [filterOf?, Option.map_some, h]

/-! ## The announcement -/

/-- A start announces the calculator or prints nothing. -/
theorem startup_cases (setting : Option Text) :
    startup setting = [announcement] ∨ startup setting = [] := by
  rw [startup]
  cases filterOf? setting with
  | none => exact .inr rfl
  | some filter => exact ite_eq_or_eq ..

/-- The announcement is printed under a filter that keeps it. -/
theorem startup_eq_iff_keeps (h : filterOf? setting = some filter) :
    startup setting = [announcement] ↔ filter.keeps announcementSubject = true := by
  rw [startup, h]
  simp

/-- A filter keeps the announcement if the directive that decides about it keeps `info` records. -/
theorem keeps_announcement_iff : filter.keeps announcementSubject = true ↔
    ∃ d, filter.Decides announcementSubject d ∧ d.threshold.keeps .info = true := by
  rw [JournalFilter.keeps_iff]
  exact or_iff_right fun h => nomatch h.2

/-- The default filter keeps the announcement. -/
theorem keeps_defaultFilter : defaultFilter.keeps announcementSubject = true := by
  decide +kernel

/-- The settings under which a start announces the calculator: none; one whose first directive that
cannot be read is malformed; and one in which the directive that decides keeps `info` records. -/
theorem startup_eq_announcement_iff : startup setting = [announcement] ↔
    setting = none ∨ ∃ text, setting = some text ∧
      ((∃ before piece after, JournalFilter.pieces text = before ++ piece :: after ∧
          (∀ other ∈ before, ∃ d, Directive.ofText other = .ok d) ∧
            Directive.ofText piece = .error .malformed) ∨
        ∃ filter d, JournalFilter.ofText text = .ok filter ∧
          filter.Decides announcementSubject d ∧ d.threshold.keeps .info = true) := by
  cases setting with
  | none => simp [startup_eq_iff_keeps filterOf?_none, keeps_defaultFilter]
  | some text =>
    simp only [reduceCtorEq, false_or, Option.some.injEq, exists_eq_left',
      ← JournalFilter.ofText_eq_error_iff]
    cases hread : JournalFilter.ofText text with
    | ok filter => simp [startup_eq_iff_keeps (filterOf?_of_ok hread), keeps_announcement_iff]
    | error fault =>
      cases fault with
      | malformed =>
        simp [startup_eq_iff_keeps (filterOf?_of_malformed hread), keeps_defaultFilter]
      | splitCharacter =>
        rw [startup, filterOf?_of_splitCharacter hread]
        simp

/-! ## Directives without brackets -/

namespace Directive.IsWritten

/-- A written directive is for no span and no field. -/
theorem scope_eq (h : IsWritten text d) : d.scope = { target := d.scope.target } := by
  cases h <;> rfl

/-- A written directive holds the records whose target starts with its own. -/
theorem holds_iff {subject : Subject} (h : IsWritten text d) :
    d.scope.holds subject = true ↔ ∀ target ∈ d.scope.target, target <+: subject.target := by
  rw [h.scope_eq]
  cases d.scope.target <;> simp [Scope.holds, Scope.isSpanless]

/-- Written directives are as specific as their targets are long. -/
theorem specificity_le_iff {text' : Text} {e : Directive} (h : IsWritten text d)
    (h' : IsWritten text' e) :
    d.scope.specificity ≤ e.scope.specificity ↔ d.scope.targetRank ≤ e.scope.targetRank := by
  have hspecificity : ∀ {text : Text} {d : Directive}, IsWritten text d →
      d.scope.specificity = toLex (d.scope.targetRank, ⊥) := by
    intro text d hwritten
    rw [hwritten.scope_eq]
    rfl
  rw [hspecificity h, hspecificity h', Prod.Lex.toLex_le_toLex]
  simp [le_iff_lt_or_eq]

end Directive.IsWritten

/-- A directive that is the whole setting is read as a filter of that directive alone. -/
theorem ofText_of_isWritten (h : Directive.IsWritten text d) :
    JournalFilter.ofText text = .ok [d] := by
  simpa using JournalFilter.ofText_intercalate (.cons h .nil)

/-- One directive without brackets lets the announcement through if its target begins the
calculator's own and its threshold keeps `info` records. -/
theorem startup_written_iff (h : Directive.IsWritten text d) :
    startup (some text) = [announcement] ↔
      (∀ target ∈ d.scope.target, target <+: ownTarget) ∧ d.threshold.keeps .info = true := by
  rw [startup_eq_iff_keeps (filterOf?_of_ok (ofText_of_isWritten h)), keeps_announcement_iff]
  simp only [JournalFilter.decides_singleton_iff, h.holds_iff, and_assoc, exists_eq_left]
  rfl

/-- The calculator's own target can be the target of a directive. -/
theorem isTarget_ownTarget : Directive.IsTarget ownTarget where
  isStart := ⟨'c', "alculatrice_base".toList, rfl, by decide +kernel⟩
  notMem := by decide +kernel

/-- The default filter is the setting `calculatrice_base=info`. -/
theorem ofText_defaultFilter :
    JournalFilter.ofText "calculatrice_base=info".toList = .ok defaultFilter := by
  have hword : Threshold.ofText? "info".toList = some (.upTo .info) := by decide +kernel
  exact ofText_of_isWritten (.both isTarget_ownTarget hword)

/-- A directive without brackets that holds the announcement is less specific than one for the
calculator's own target, unless its target is that too. -/
theorem targetRank_lt_or_eq (h : Directive.IsWritten text d)
    (hholds : d.scope.holds announcementSubject = true) :
    d.scope.targetRank < utf8Length ownTarget + 1 ∨ d.scope.target = some ownTarget := by
  rw [Scope.targetRank]
  cases htarget : d.scope.target with
  | none => exact .inl (Nat.zero_lt_succ _)
  | some target =>
    obtain ⟨back, hback⟩ : target <+: ownTarget := h.holds_iff.1 hholds target htarget
    rcases eq_or_ne back [] with rfl | hne
    · rw [List.append_nil] at hback
      exact .inr (congrArg some hback)
    · refine .inl (Nat.succ_lt_succ ?_)
      rw [← hback, utf8Length_append]
      exact Nat.lt_add_of_pos_right (utf8Length_pos hne)

/-- Of directives without brackets, the last for the calculator's own target decides about the
announcement. -/
theorem startup_intercalate_iff {texts : List Text} {before after : JournalFilter}
    (h : List.Forall₂ Directive.IsWritten texts (before ++ d :: after))
    (hown : d.scope.target = some ownTarget)
    (hother : ∀ e ∈ after, e.scope.target ≠ some ownTarget) :
    startup (some ([','].intercalate texts)) = [announcement] ↔ d.threshold.keeps .info = true := by
  have hwritten : ∀ e ∈ before ++ d :: after, ∃ text, Directive.IsWritten text e :=
    fun e he => JournalFilter.exists_isWritten_of_mem h he
  obtain ⟨_, hd⟩ := hwritten d (by simp)
  have hrank : d.scope.targetRank = utf8Length ownTarget + 1 := by rw [Scope.targetRank, hown]
  have hdecides : JournalFilter.Decides (before ++ d :: after) announcementSubject d := by
    refine ⟨before, after, rfl, hd.holds_iff.2 ?_, fun e he hholds => ?_, fun e he hholds => ?_⟩
    · rw [hown]
      rintro target ⟨⟩
      exact List.prefix_rfl
    · obtain ⟨_, hewritten⟩ := hwritten e (by simp [he])
      rw [hewritten.specificity_le_iff hd, hrank]
      rcases targetRank_lt_or_eq hewritten hholds with hlt | heq
      · exact hlt.le
      · rw [Scope.targetRank, heq]
    · obtain ⟨_, hewritten⟩ := hwritten e (by simp [he])
      rw [← not_le, hd.specificity_le_iff hewritten, hrank, not_le]
      exact (targetRank_lt_or_eq hewritten hholds).resolve_right (hother e he)
  rw [startup_eq_iff_keeps (filterOf?_of_ok (JournalFilter.ofText_intercalate h)),
    JournalFilter.keeps_of_decides hdecides]
  rfl

example : startup (some "calculatrice_base,warn".toList) = [announcement] := by decide +kernel

end FourFunction
