import FourFunction.Journal.Pattern
import Mathlib.Data.List.Basic

/-!
# Scanning a pattern

Every step of the scan of a regular expression reads at least one character. So the limit on the
number of steps is never reached, and the scan does not depend on it. A text without the characters
that have a meaning of their own is a regular expression that stands for itself.

## Main results

* `Pattern.scan_congr`: limits above the length of the text make no difference;
* `Pattern.isReadable_of_forall_notMem`: a text of characters without a meaning of their own can be
  read.
-/

namespace FourFunction.Pattern

variable {text rest : Text}

/-! ## What the readers leave -/

theorem length_of_readEscape? {atom : Atom} (h : readEscape? text = some (atom, rest)) :
    rest.length < text.length := by
  unfold readEscape? at h
  split at h <;> simp_all <;> omega

/-- A character or an escape is read off the text. -/
theorem length_of_readAtom? {atom : Atom} (h : readAtom? text = some (atom, rest)) :
    rest.length < text.length := by
  unfold readAtom? at h
  split at h
  · exact Nat.lt_succ_of_lt (length_of_readEscape? h)
  · simp_all
  · cases h

/-- A member of a set is read off the text, a range with both of its ends. -/
theorem length_of_readMember? (h : readMember? text = some rest) : rest.length < text.length := by
  obtain ⟨⟨first, rest'⟩, hfirst, h⟩ := Option.bind_eq_some_iff.1 h
  have hlt := length_of_readAtom? hfirst
  simp only at h
  split at h
  · cases h
  split at h
  · next next more =>
    split at h
    · obtain rfl := Option.some.inj h
      exact hlt
    · obtain ⟨⟨second, rest''⟩, hsecond, h⟩ := Option.bind_eq_some_iff.1 h
      have hlt' := length_of_readAtom? hsecond
      simp only [List.length_cons] at hlt hlt'
      cases first with
      | set => cases h
      | anchor => cases h
      | literal low =>
        cases second with
        | set => cases h
        | anchor => cases h
        | literal high =>
          simp only [Option.ite_none_right_eq_some, Option.some.injEq] at h
          obtain ⟨-, rfl⟩ := h
          omega
  · obtain rfl := Option.some.inj h
    exact hlt

/-- One character that may stand in front is no longer there. -/
theorem length_dropHead_le (c : Char) (text : Text) :
    (if text.head? = some c then text.tail else text).length ≤ text.length := by
  split
  · exact (List.tail_sublist text).length_le
  · exact Nat.le_refl _

/-- A character that ends a part is read off with it. -/
theorem length_of_dropWhile {p : Char → Bool} {c : Char} (h : text.dropWhile p = c :: rest) :
    rest.length < text.length := by
  have hle : (text.dropWhile p).length ≤ text.length := (List.dropWhile_sublist _).length_le
  rw [h, List.length_cons] at hle
  omega

/-- What can only stand at the start of a set is read off the text. -/
theorem length_afterBracket_le (text : Text) : (afterBracket text).length ≤ text.length := by
  refine Nat.le_trans ?_ (length_dropHead_le '^' text)
  rw [afterBracket]
  generalize (if text.head? = some '^' then text.tail else text) = body
  split
  · exact (List.tail_sublist body).length_le
  · exact (List.dropWhile_sublist _).length_le

/-- The beginning of a group is read off the text, if it has one at all. -/
theorem length_of_readOpening? {opening : Opening} (h : readOpening? text = some (opening, rest)) :
    rest.length ≤ text.length := by
  unfold readOpening? at h
  split at h
  · next after =>
    have hnamed := length_dropHead_le 'P' after
    dsimp only at h
    split at h
    -- a name ends with its angle, flags end with a colon or a parenthesis
    · next name heq =>
      rw [heq, List.length_cons] at hnamed
      split at h
      · next body hbody =>
        have hlt := length_of_dropWhile hbody
        simp only [Option.ite_none_right_eq_some, Option.some.injEq, Prod.mk.injEq] at h
        obtain ⟨-, -, rfl⟩ := h
        rw [List.length_cons]
        omega
      · cases h
    · split at h
      · next body hbody _ =>
        have hlt := length_of_dropWhile hbody
        simp only [Option.some.injEq, Prod.mk.injEq] at h
        obtain ⟨-, rfl⟩ := h
        rw [List.length_cons]
        omega
      · next body hbody _ =>
        have hlt := length_of_dropWhile hbody
        simp only [Option.ite_none_left_eq_some, Option.some.injEq, Prod.mk.injEq] at h
        obtain ⟨-, -, rfl⟩ := h
        rw [List.length_cons]
        omega
      · cases h
  · simp_all

/-! ## The limit -/

/-- A limit above the length of the text is never reached. -/
theorem scan_congr {limit limit' : ℕ} (h : text.length < limit) (h' : text.length < limit')
    (groups brackets : ℕ) (operand : Bool) :
    scan groups brackets operand text limit = scan groups brackets operand text limit' := by
  induction limit generalizing limit' text groups brackets operand with
  | zero => omega
  | succ limit ih =>
    obtain ⟨limit', rfl⟩ := Nat.exists_eq_add_one.2 (Nat.zero_lt_of_lt h')
    have step : ∀ {shorter : Text}, shorter.length < text.length → ∀ groups brackets operand,
        scan groups brackets operand shorter limit = scan groups brackets operand shorter limit' :=
      fun hlt => ih (by omega) (by omega)
    -- one case for each kind of step, with the brackets closed and then with some open
    unfold scan
    split
    · rfl
    · next rest =>
      cases hopening : readOpening? rest with
      | none => rfl
      | some read =>
        have hlt := Nat.lt_succ_of_le (length_of_readOpening? hopening)
        obtain ⟨opening, body⟩ := read
        cases opening <;> exact step hlt _ _ _
    · rw [step (Nat.lt_succ_self _)]
    · rw [step (Nat.lt_succ_self _)]
    · rw [step (Nat.lt_succ_self _)]
    · rw [step (Nat.lt_succ_self _)]
    · rw [step (Nat.lt_succ_self _)]
    · rfl
    · next rest => rw [step (Nat.lt_succ_of_le (length_afterBracket_le rest))]
    · cases hatom : readAtom? text with
      | none => rfl
      | some read => exact step (length_of_readAtom? hatom) _ _ _
    · next rest => rw [step (Nat.lt_succ_of_le (length_afterBracket_le rest))]
    · rw [step (Nat.lt_succ_self _)]
    · rw [step (Nat.lt_succ_of_lt (Nat.lt_succ_self _))]
    · rw [step (Nat.lt_succ_of_lt (Nat.lt_succ_self _))]
    · rw [step (Nat.lt_succ_of_lt (Nat.lt_succ_self _))]
    · cases hmember : readMember? text with
      | none => rfl
      | some rest => exact step (length_of_readMember? hmember) _ _ _

/-! ## Plain characters -/

/-- The characters that have a meaning of their own outside brackets. -/
def special : List Char := ['(', ')', '|', '*', '+', '?', '{', '[', '\\']

/-- Any other character stands for itself. -/
theorem readAtom?_of_notMem {c : Char} (hc : c ∉ special) :
    readAtom? (c :: rest) = some (.literal c, rest) := by
  unfold readAtom?
  split
  · next heq =>
    obtain ⟨rfl, -⟩ := List.cons.inj heq
    exact absurd (by decide) hc
  · next heq =>
    obtain ⟨rfl, rfl⟩ := List.cons.inj heq
    rfl
  · next heq => cases heq

/-- Characters without a meaning of their own are read one by one. -/
theorem scan_of_forall_notMem (h : ∀ c ∈ text, c ∉ special) (operand : Bool) {limit : ℕ}
    (hlimit : text.length < limit) : scan 0 0 operand text limit = true := by
  induction text generalizing operand limit with
  | nil =>
    obtain ⟨limit, rfl⟩ := Nat.exists_eq_add_one.2 (Nat.zero_lt_of_lt hlimit)
    rfl
  | cons c rest ih =>
    obtain ⟨limit, rfl⟩ := Nat.exists_eq_add_one.2 (Nat.zero_lt_of_lt hlimit)
    obtain ⟨hc, hrest⟩ := List.forall_mem_cons.1 h
    have hatom : readAtom? (c :: rest) = some (.literal c, rest) := readAtom?_of_notMem hc
    have hstep : scan 0 0 operand (c :: rest) (limit + 1) = scan 0 0 true rest limit := by
      simp only [special, List.mem_cons, not_or] at hc
      simp [scan, hc, hatom]
    rw [hstep]
    exact ih hrest true (Nat.lt_of_succ_lt_succ hlimit)

/-- A text of characters without a meaning of their own is a pattern that can be read. -/
theorem isReadable_of_forall_notMem (h : ∀ c ∈ text, c ∉ special) : isReadable text = true := by
  rw [isReadable, isExpression, scan_of_forall_notMem h false (Nat.lt_succ_self _), Bool.true_or]

end FourFunction.Pattern
