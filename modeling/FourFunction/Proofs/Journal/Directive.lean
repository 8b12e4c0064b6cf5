import FourFunction.Proofs.Journal.Filter
import FourFunction.Proofs.Journal.Pattern
import Mathlib.Data.List.Basic
import Mathlib.Data.List.Forall2
import Mathlib.Data.List.TakeWhile

/-!
# Reading directives

A directive without brackets is a threshold, a target, or a target with a threshold behind an equals
sign. It is cut at places counted in bytes, out of a text whose blanks were passed over before; as
long as there are no blanks at its ends, the cuts are where the parts meet. Directives that are
joined by commas are read one by one.

## Main results

* `isBlank_eq_false_of_isAlphanumeric`: no letter or number is a blank;
* `Directive.IsWritten.ofText_eq`: what each of the three forms is read as;
* `JournalFilter.ofText_intercalate`: a list of such directives is read back;
* `FieldTest.ofText?_append`: what a field with a value is read as.
-/

namespace FourFunction

/-! ## Blanks, letters and numbers -/

section Characters

variable {c : Char} {text : Text}

/-- The ranges of blanks lie between those of letters and numbers. -/
theorem blankRanges_disjoint : (blankRanges.all fun blank =>
    alphanumericRanges.all fun range => blank.2 < range.1 || range.2 < blank.1) = true := by
  decide +kernel

/-- No letter or number is a blank. -/
theorem isBlank_eq_false_of_isAlphanumeric (h : isAlphanumeric c = true) : isBlank c = false := by
  by_contra hblank
  obtain ⟨range, hrange, hc⟩ := List.any_eq_true.1 h
  obtain ⟨blank, hmem, hc'⟩ := List.any_eq_true.1 (Bool.not_eq_false _ ▸ hblank)
  have hapart := List.all_eq_true.1 (List.all_eq_true.1 blankRanges_disjoint blank hmem) range hrange
  simp only [Bool.or_eq_true, Bool.and_eq_true, decide_eq_true_eq] at hapart hc hc'
  omega

theorem isAlphanumeric_of_mem {range : ℕ × ℕ} (hrange : range ∈ alphanumericRanges)
    (hfirst : range.1 ≤ c.toNat) (hlast : c.toNat ≤ range.2) : isAlphanumeric c = true :=
  List.any_eq_true.2 ⟨range, hrange, by simp [hfirst, hlast]⟩

/-- The letters and digits of ASCII are letters and numbers. -/
theorem isAlphanumeric_of_isAlphanum (h : c.isAlphanum = true) : isAlphanumeric c = true := by
  rcases Bool.or_eq_true_iff.1 h with halpha | hdigit
  · rcases Bool.or_eq_true_iff.1 halpha with hupper | hlower
    · have hrange : (0x41, 0x5a) ∈ alphanumericRanges := by decide +kernel
      obtain ⟨hlo, hhi⟩ := of_decide_eq_true hupper
      exact isAlphanumeric_of_mem hrange hlo hhi
    · have hrange : (0x61, 0x7a) ∈ alphanumericRanges := by decide +kernel
      obtain ⟨hlo, hhi⟩ := Bool.and_eq_true_iff.1 hlower
      exact isAlphanumeric_of_mem hrange (of_decide_eq_true hlo) (of_decide_eq_true hhi)
  · have hrange : (0x30, 0x39) ∈ alphanumericRanges := by decide +kernel
    obtain ⟨hlo, hhi⟩ := Char.isDigit_iff_toNat.1 hdigit
    exact isAlphanumeric_of_mem hrange hlo hhi

/-- A text with no blank at either end has none to lose. -/
theorem trimBlanks_eq_self (hfirst : ∀ c ∈ text.head?, isBlank c = false)
    (hlast : ∀ c ∈ text.getLast?, isBlank c = false) : trimBlanks text = text := by
  have hstart : ∀ t : Text, (∀ c ∈ t.head?, isBlank c = false) → t.dropWhile isBlank = t := by
    intro t ht
    cases t with
    | nil => rfl
    | cons c t => rw [List.dropWhile_cons_of_neg (by simp [ht c rfl])]
  rw [trimBlanks, hstart text hfirst, hstart text.reverse (by rwa [List.head?_reverse]),
    List.reverse_reverse]

end Characters

/-! ## Thresholds -/

namespace Threshold

/-- The names of thresholds are in small letters. -/
theorem named_isLower : (named.all fun entry =>
    !entry.1.toList.isEmpty && entry.1.toList.all Char.isLower) = true := by
  decide +kernel

theorem isLower_of_lookup {name : String} {threshold : Threshold}
    (h : named.lookup name = some threshold) :
    name.toList ≠ [] ∧ ∀ c ∈ name.toList, c.isLower = true := by
  obtain ⟨before, after, heq, -⟩ := List.lookup_eq_some_iff.1 h
  have hmem : (name, threshold) ∈ named := by
    rw [heq]
    exact List.mem_append_right _ (List.mem_cons_self ..)
  have hlower := List.all_eq_true.1 named_isLower _ hmem
  rw [Bool.and_eq_true, List.all_eq_true] at hlower
  exact ⟨by simpa using hlower.1, hlower.2⟩

/-- What is a small letter in small letters is a letter. -/
theorem isAlpha_of_isLower_toLower {c : Char} (h : c.toLower.isLower = true) :
    c.isAlpha = true := by
  refine Bool.or_eq_true_iff.2 ?_
  unfold Char.toLower at h
  split at h
  · next hupper => exact .inl (decide_eq_true hupper)
  · exact .inr h

/-- A number is a word of digits, perhaps with a plus sign in front. -/
theorem isDigit_of_ofNumber? {word : Text} {threshold : Threshold}
    (h : ofNumber? word = some threshold) :
    word ≠ [] ∧ ∀ c ∈ word, c.isDigit = true ∨ c = '+' := by
  unfold ofNumber? at h
  simp only [Option.ite_none_right_eq_some, List.all_eq_true] at h
  obtain ⟨⟨hne, hdigits⟩, -⟩ := h
  split at hdigits
  · next hplus =>
    obtain ⟨rest, rfl⟩ := List.head?_eq_some_iff.1 hplus
    exact ⟨List.cons_ne_nil _ _, List.forall_mem_cons.2 ⟨.inr rfl, fun c hc => .inl (hdigits c hc)⟩⟩
  · next hplus =>
    rw [if_neg hplus] at hne
    exact ⟨hne, fun c hc => .inl (hdigits c hc)⟩

/-- A threshold is a word of letters and digits, perhaps with a plus sign. -/
theorem isAlphanum_of_ofText? {word : Text} {threshold : Threshold}
    (h : ofText? word = some threshold) :
    word ≠ [] ∧ ∀ c ∈ word, c.isAlphanum = true ∨ c = '+' := by
  cases hnumber : ofNumber? word with
  | some number =>
    obtain ⟨hne, hdigits⟩ := isDigit_of_ofNumber? hnumber
    exact ⟨hne, fun c hc => (hdigits c hc).imp_left fun hdigit => by simp [Char.isAlphanum, hdigit]⟩
  | none =>
    rw [ofText?, hnumber] at h
    obtain ⟨hne, hlower⟩ := isLower_of_lookup h
    rw [String.toList_ofList] at hne hlower
    refine ⟨by simpa using hne, fun c hc => .inl ?_⟩
    rw [Char.isAlphanum, isAlpha_of_isLower_toLower (hlower _ (List.mem_map_of_mem hc)),
      Bool.true_or]

/-- A threshold has no blanks. -/
theorem isBlank_eq_false_of_ofText? {word : Text} {threshold : Threshold}
    (h : ofText? word = some threshold) : ∀ c ∈ word, isBlank c = false := by
  intro c hc
  rcases (isAlphanum_of_ofText? h).2 c hc with halphanum | rfl
  · exact isBlank_eq_false_of_isAlphanumeric (isAlphanumeric_of_isAlphanum halphanum)
  · decide

/-- A threshold has no mark that ends a part of a directive. -/
theorem notMem_of_ofText? {word : Text} {threshold : Threshold} (h : ofText? word = some threshold) :
    '=' ∉ word ∧ '[' ∉ word ∧ ',' ∉ word := by
  have hchars := (isAlphanum_of_ofText? h).2
  refine ⟨fun hc => ?_, fun hc => ?_, fun hc => ?_⟩ <;>
    exact absurd (hchars _ hc) (by decide)

end Threshold

/-! ## Fields -/

/-- A name, an equals sign and characters without a meaning of their own ask for a value of the
field. -/
theorem FieldTest.ofText?_append {name value : Text} (hname : '=' ∉ name)
    (hvalue : ∀ c ∈ value, c ∉ Pattern.special) :
    ofText? (name ++ '=' :: value) = some ⟨name, true⟩ := by
  have hchars : ∀ c ∈ name, (c != '=') = true := fun c hc => bne_iff_ne.2 fun h => hname (h ▸ hc)
  have htake := takeWhile_append_cons hchars (bne_self_eq_false '=') value
  have hdrop := dropWhile_append_cons hchars (bne_self_eq_false '=') value
  have hreadable : Pattern.isReadable (value.takeWhile (· != '=')) = true :=
    Pattern.isReadable_of_forall_notMem fun c hc => hvalue c ((List.takeWhile_sublist _).subset hc)
  simp only [ofText?, htake, hdrop, hreadable, if_true]

/-! ## Directives -/

namespace Directive

/-- A target of a directive: it begins like a word, and no character of it ends the target or the
directive. -/
structure IsTarget (target : Text) : Prop where
  isStart : ∃ first rest, target = first :: rest ∧ Directive.isStart first = true
  notMem : '=' ∉ target ∧ '[' ∉ target ∧ ',' ∉ target

/-- A directive without brackets, and how it is written. -/
inductive IsWritten : Text → Directive → Prop where
  /-- A threshold for all records. It is not a number with a plus sign. -/
  | threshold {word : Text} {threshold : Threshold} (hword : Threshold.ofText? word = some threshold)
      (hplus : '+' ∉ word) : IsWritten word ⟨{}, threshold⟩
  /-- A target alone, for all detail. It is not itself a threshold. -/
  | target {target : Text} (htarget : IsTarget target) (hword : Threshold.ofText? target = none)
      (hlast : ∀ c ∈ target.getLast?, isBlank c = false) :
      IsWritten target ⟨{ target }, .upTo .trace⟩
  /-- A target and a threshold. -/
  | both {target word : Text} {threshold : Threshold} (htarget : IsTarget target)
      (hword : Threshold.ofText? word = some threshold) :
      IsWritten (target ++ '=' :: word) ⟨{ target }, threshold⟩

/-- A character that begins a target or a threshold is no blank. -/
theorem isBlank_eq_false_of_isStart {c : Char} (h : isStart c = true) : isBlank c = false := by
  simp only [isStart, Bool.or_eq_true, beq_iff_eq] at h
  rcases h with ((rfl | rfl) | rfl) | h
  · decide
  · decide
  · decide
  · exact isBlank_eq_false_of_isAlphanumeric h

/-- A text that begins like a word and does not end in a blank is scanned as it is. -/
theorem trimBlanks_of_isStart {first : Char} {rest : Text} (hfirst : isStart first = true)
    (hlast : ∀ c ∈ (first :: rest).getLast?, isBlank c = false) :
    trimBlanks (first :: rest) = first :: rest := by
  refine trimBlanks_eq_self (fun c hc => ?_) hlast
  obtain rfl := Option.some.inj hc
  exact isBlank_eq_false_of_isStart hfirst

/-- The characters of a target, up to the mark that ends it. -/
theorem isName_of_notMem {text : Text} (hmark : '=' ∉ text ∧ '[' ∉ text) :
    ∀ c ∈ text, (c != '=' && c != '[') = true := by
  intro c hc
  rw [Bool.and_eq_true, bne_iff_ne, bne_iff_ne]
  exact ⟨fun h => hmark.1 (h ▸ hc), fun h => hmark.2 (h ▸ hc)⟩

/-- A directive that begins like a word is read up to the mark that ends the word. -/
theorem ofText_of_isStart {first : Char} {rest : Text} (hfirst : isStart first = true)
    (hlast : ∀ c ∈ (first :: rest).getLast?, isBlank c = false) :
    ofText (first :: rest) =
      (match rest.dropWhile fun c => c != '=' && c != '[' with
      | [] => .ok (ofWord (first :: rest))
      | mark :: after => do
        let last := utf8Length (first :: rest.takeWhile fun c => c != '=' && c != '[')
        let target ← part (first :: rest) 0 last
        if mark = '=' then return ⟨{ target }, ← lastPart (first :: rest) (last + 1)⟩
        else afterBracket (first :: rest) target after (last + 1)) := by
  unfold ofText
  rw [trimBlanks_of_isStart hfirst hlast]
  split
  · next heq => cases heq
  · next heq =>
    obtain ⟨rfl, -⟩ := List.cons.inj heq
    exact absurd hfirst (by decide +kernel)
  · next heq =>
    obtain ⟨rfl, rfl⟩ := List.cons.inj heq
    simp only [hfirst]
    rfl

/-- A word without an equals sign or a bracket is a threshold or a target. -/
theorem ofText_word {first : Char} {rest : Text} (hfirst : isStart first = true)
    (hmark : '=' ∉ first :: rest ∧ '[' ∉ first :: rest)
    (hlast : ∀ c ∈ (first :: rest).getLast?, isBlank c = false) :
    ofText (first :: rest) = .ok (ofWord (first :: rest)) := by
  have hrest : rest.dropWhile (fun c => c != '=' && c != '[') = [] :=
    List.dropWhile_eq_nil_iff.2 fun c hc => isName_of_notMem hmark c (List.mem_cons_of_mem _ hc)
  rw [ofText_of_isStart hfirst hlast, hrest]

/-- What a text begins with is cut out of it. -/
theorem part_append (front back : Text) : part (front ++ back) 0 (utf8Length front) = .ok front := by
  have hslice : slice? (front ++ back) 0 (utf8Length front) = some front :=
    slice?_append [] front back
  rw [part, hslice]

/-- What a text ends with is read as its threshold. -/
theorem lastPart_append {word : Text} {threshold : Threshold} (front : Text)
    (hword : Threshold.ofText? word = some threshold) :
    lastPart (front ++ word) (utf8Length front) = .ok threshold := by
  have hslice : sliceFrom? (front ++ word) (utf8Length front) = some word :=
    congrArg (Option.map Prod.snd) (cutAt?_append front word)
  obtain ⟨c, rest, rfl⟩ := List.exists_cons_of_ne_nil (Threshold.isAlphanum_of_ofText? hword).1
  rw [lastPart, hslice]
  simp only [hword]

/-- What stands before an equals sign is the target, and the threshold stands behind it. -/
theorem ofText_target {first : Char} {rest word : Text} {threshold : Threshold}
    (hfirst : isStart first = true) (hmark : '=' ∉ first :: rest ∧ '[' ∉ first :: rest)
    (hword : Threshold.ofText? word = some threshold) :
    ofText (first :: rest ++ '=' :: word) =
      .ok ⟨{ target := some (first :: rest) }, threshold⟩ := by
  have hrest : ∀ c ∈ rest, (c != '=' && c != '[') = true :=
    fun c hc => isName_of_notMem hmark c (List.mem_cons_of_mem _ hc)
  have hlast : ∀ c ∈ (first :: (rest ++ '=' :: word)).getLast?, isBlank c = false := by
    intro c hc
    refine Threshold.isBlank_eq_false_of_ofText? hword c (List.mem_of_getLast? ?_)
    rwa [← List.cons_append, List.getLast?_append_of_ne_nil _ (List.cons_ne_nil _ _),
      List.getLast?_cons_of_ne_nil (Threshold.isAlphanum_of_ofText? hword).1] at hc
  -- both parts are cut where they meet at the equals sign
  have htarget := part_append (first :: rest) ('=' :: word)
  have hthreshold := lastPart_append (first :: rest ++ ['=']) hword
  have hequals : utf8Length ['='] = 1 := rfl
  rw [utf8Length_append, hequals, List.append_assoc, List.singleton_append] at hthreshold
  rw [List.cons_append, ofText_of_isStart hfirst hlast, takeWhile_append_cons hrest rfl,
    dropWhile_append_cons hrest rfl]
  rw [List.cons_append] at htarget hthreshold
  simp only [htarget, hthreshold]
  rfl

/-- The first character of a threshold begins a directive, unless it is a plus sign. -/
theorem isStart_of_ofText? {word : Text} {threshold : Threshold}
    (h : Threshold.ofText? word = some threshold) (hplus : '+' ∉ word) :
    ∃ first rest, word = first :: rest ∧ isStart first = true := by
  obtain ⟨hne, hchars⟩ := Threshold.isAlphanum_of_ofText? h
  obtain ⟨first, rest, rfl⟩ := List.exists_cons_of_ne_nil hne
  refine ⟨first, rest, rfl, ?_⟩
  rcases hchars first (List.mem_cons_self ..) with halphanum | rfl
  · simp [isStart, isAlphanumeric_of_isAlphanum halphanum]
  · exact absurd (List.mem_cons_self ..) hplus

namespace IsWritten

variable {text : Text} {d : Directive}

/-- A written directive is read back. -/
theorem ofText_eq (h : IsWritten text d) : ofText text = .ok d := by
  cases h with
  | threshold hword hplus =>
    obtain ⟨hequals, hbracket, -⟩ := Threshold.notMem_of_ofText? hword
    have hblank := Threshold.isBlank_eq_false_of_ofText? hword
    obtain ⟨first, rest, rfl, hfirst⟩ := isStart_of_ofText? hword hplus
    rw [ofText_word hfirst ⟨hequals, hbracket⟩ fun c hc => hblank c (List.mem_of_getLast? hc), ofWord,
      hword]
  | target htarget hword hlast =>
    obtain ⟨⟨first, rest, rfl, hfirst⟩, hequals, hbracket, -⟩ := htarget
    rw [ofText_word hfirst ⟨hequals, hbracket⟩ hlast, ofWord, hword]
  | both htarget hword =>
    obtain ⟨⟨first, rest, rfl, hfirst⟩, hequals, hbracket, -⟩ := htarget
    exact ofText_target hfirst ⟨hequals, hbracket⟩ hword

/-- A written directive is a piece of a filter: it is not empty, and has no comma. -/
theorem isPiece (h : IsWritten text d) : text ≠ [] ∧ ',' ∉ text := by
  cases h with
  | threshold hword hplus =>
    exact ⟨(Threshold.isAlphanum_of_ofText? hword).1, (Threshold.notMem_of_ofText? hword).2.2⟩
  | target htarget hword hlast =>
    obtain ⟨⟨first, rest, rfl, -⟩, -, -, hcomma⟩ := htarget
    exact ⟨List.cons_ne_nil _ _, hcomma⟩
  | both htarget hword =>
    obtain ⟨-, -, -, hcomma⟩ := htarget
    refine ⟨List.append_ne_nil_of_right_ne_nil _ (List.cons_ne_nil _ _), ?_⟩
    rw [List.mem_append, List.mem_cons, not_or, not_or]
    exact ⟨hcomma, by decide, (Threshold.notMem_of_ofText? hword).2.2⟩

end IsWritten

end Directive

/-! ## Filters -/

namespace JournalFilter

variable {texts : List Text} {filter : JournalFilter}

/-- The pieces of a text are the parts that were joined by commas, if none is empty or has one. -/
theorem pieces_intercalate (h : ∀ text ∈ texts, text ≠ [] ∧ ',' ∉ text) :
    pieces ([','].intercalate texts) = texts := by
  rcases eq_or_ne texts [] with rfl | hne
  · rfl
  have hsplit := List.splitOn_intercalate ',' (fun text htext => (h text htext).2) hne
  rw [List.splitOn_eq_splitOnP] at hsplit
  rw [pieces, hsplit, List.filter_eq_self]
  exact fun text htext => decide_eq_true (h text htext).1

/-- Written directives are pieces of a filter, and each is read back. -/
theorem pieces_and_read (h : List.Forall₂ Directive.IsWritten texts filter) :
    (∀ text ∈ texts, text ≠ [] ∧ ',' ∉ text) ∧
      texts.map Directive.ofText = filter.map Except.ok := by
  induction h with
  | nil => exact ⟨List.forall_mem_nil _, rfl⟩
  | cons hwritten _ ih =>
    refine ⟨List.forall_mem_cons.2 ⟨hwritten.isPiece, ih.1⟩, ?_⟩
    rw [List.map_cons, List.map_cons, hwritten.ofText_eq, ih.2]

/-- Each directive of a filter that is written part by part is written by one of the parts. -/
theorem exists_isWritten_of_mem (h : List.Forall₂ Directive.IsWritten texts filter) {d : Directive}
    (hd : d ∈ filter) : ∃ text, Directive.IsWritten text d := by
  induction h with
  | nil => cases hd
  | cons hwritten _ ih =>
    rcases List.mem_cons.1 hd with rfl | hd
    · exact ⟨_, hwritten⟩
    · exact ih hd

/-- Written directives that are joined by commas are read back as a filter. -/
theorem ofText_intercalate (h : List.Forall₂ Directive.IsWritten texts filter) :
    ofText ([','].intercalate texts) = .ok filter := by
  obtain ⟨hpieces, hread⟩ := pieces_and_read h
  rw [ofText, pieces_intercalate hpieces, mapM_eq_ok_iff]
  exact hread

end JournalFilter

end FourFunction
