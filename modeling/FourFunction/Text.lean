/-!
# Text

All text that the calculator keeps, reads or shows is a list of characters, a character being a
Unicode scalar value. Where places in a text count, they are counted in bytes of UTF-8; a place
inside a character is no place to cut.
-/

namespace FourFunction

/-- A text, character by character. -/
abbrev Text := List Char

/-- The number of bytes of a text in UTF-8. -/
def utf8Length (text : Text) : Nat :=
  text.foldr (fun c bytes => c.utf8Size + bytes) 0

@[simp]
theorem utf8Length_nil : utf8Length [] = 0 := rfl

@[simp]
theorem utf8Length_cons (c : Char) (text : Text) :
    utf8Length (c :: text) = c.utf8Size + utf8Length text := rfl

theorem utf8Length_append (front back : Text) :
    utf8Length (front ++ back) = utf8Length front + utf8Length back := by
  induction front with
  | nil => exact (Nat.zero_add _).symm
  | cons c front ih => rw [List.cons_append, utf8Length_cons, utf8Length_cons, ih, Nat.add_assoc]

/-- Every character has at least one byte. -/
theorem utf8Length_pos {text : Text} (h : text ≠ []) : 0 < utf8Length text := by
  cases text with
  | nil => exact absurd rfl h
  | cons c rest => exact Nat.lt_of_lt_of_le c.utf8Size_pos (Nat.le_add_right ..)

/-- Cuts a text in two after the given number of bytes; none where that is inside a character or
past the end. -/
def cutAt? : Nat → Text → Option (Text × Text)
  | 0, text => some ([], text)
  | _ + 1, [] => none
  | bytes + 1, c :: rest =>
    if c.utf8Size ≤ bytes + 1 then
      (cutAt? (bytes + 1 - c.utf8Size) rest).map fun (front, back) => (c :: front, back)
    else none

/-- The two parts of a cut text are the text. -/
theorem append_of_cutAt? {bytes : Nat} {text front back : Text}
    (h : cutAt? bytes text = some (front, back)) : front ++ back = text := by
  induction text generalizing bytes front with
  | nil => cases bytes <;> simp_all [cutAt?]
  | cons c rest ih =>
    cases bytes with
    | zero => simp_all [cutAt?]
    | succ bytes =>
      simp only [cutAt?, Option.ite_none_right_eq_some, Option.map_eq_some_iff, Prod.exists,
        Prod.mk.injEq] at h
      obtain ⟨_, tail, _, cut, rfl, rfl⟩ := h
      rw [List.cons_append, ih cut]

/-- The first part of a cut text has the given number of bytes. -/
theorem utf8Length_of_cutAt? {bytes : Nat} {text front back : Text}
    (h : cutAt? bytes text = some (front, back)) : utf8Length front = bytes := by
  induction text generalizing bytes front with
  | nil => cases bytes <;> simp_all [cutAt?]
  | cons c rest ih =>
    cases bytes with
    | zero => simp_all [cutAt?]
    | succ bytes =>
      simp only [cutAt?, Option.ite_none_right_eq_some, Option.map_eq_some_iff, Prod.exists,
        Prod.mk.injEq] at h
      obtain ⟨fits, tail, _, cut, rfl, rfl⟩ := h
      rw [utf8Length_cons, ih cut]
      omega

/-- A text can be cut where a first part of it ends. -/
theorem cutAt?_append (front back : Text) :
    cutAt? (utf8Length front) (front ++ back) = some (front, back) := by
  induction front with
  | nil => rw [utf8Length_nil, cutAt?, List.nil_append]
  | cons c front ih =>
    obtain ⟨bytes, hbytes⟩ : ∃ bytes, utf8Length (c :: front) = bytes + 1 :=
      Nat.exists_eq_add_one.2 (utf8Length_pos (List.cons_ne_nil c front))
    have hrest : bytes + 1 - c.utf8Size = utf8Length front := by
      rw [← hbytes, utf8Length_cons, Nat.add_sub_cancel_left]
    have hfits : c.utf8Size ≤ bytes + 1 := by
      rw [← hbytes, utf8Length_cons]
      exact Nat.le_add_right ..
    rw [hbytes, List.cons_append, cutAt?, if_pos hfits, hrest, ih]
    rfl

/-- The part of a text from one number of bytes to another, none if either end is inside a
character. -/
def slice? (text : Text) (first last : Nat) : Option Text := do
  let (front, _) ← cutAt? last text
  let (_, part) ← cutAt? first front
  return part

/-- A part of a text is found between the numbers of bytes at which it starts and ends. -/
theorem slice?_append (front part back : Text) :
    slice? (front ++ part ++ back) (utf8Length front) (utf8Length (front ++ part)) = some part := by
  rw [slice?, cutAt?_append]
  exact congrArg (· >>= fun cut => some cut.2) (cutAt?_append front part)

/-- The part of a text after the given number of bytes, none if that is inside a character. -/
def sliceFrom? (text : Text) (first : Nat) : Option Text :=
  (cutAt? first text).map Prod.snd

section Spans

variable {p : Char → Bool} {front : Text} {c : Char}

/-- Characters of a kind are taken up to the first that is not of the kind. -/
theorem takeWhile_append_cons (hfront : ∀ d ∈ front, p d = true) (hc : p c = false) (back : Text) :
    (front ++ c :: back).takeWhile p = front := by
  rw [List.takeWhile_append_of_pos hfront, List.takeWhile_cons_of_neg (by simp [hc]),
    List.append_nil]

/-- That one and what follows it is left. -/
theorem dropWhile_append_cons (hfront : ∀ d ∈ front, p d = true) (hc : p c = false) (back : Text) :
    (front ++ c :: back).dropWhile p = c :: back := by
  rw [List.dropWhile_append_of_pos hfront, List.dropWhile_cons_of_neg (by simp [hc])]

end Spans

/-- The parts of a text before and after the first of the given character, which is in neither; none
where the character does not stand in the text. -/
def splitOnce? (mark : Char) (text : Text) : Option (Text × Text) :=
  match text.dropWhile (· != mark) with
  | [] => none
  | _ :: back => some (text.takeWhile (· != mark), back)

/-- A text without the given character at its end, however often it stands there. -/
def trimEnd (mark : Char) (text : Text) : Text :=
  (text.reverse.dropWhile (· == mark)).reverse

end FourFunction
