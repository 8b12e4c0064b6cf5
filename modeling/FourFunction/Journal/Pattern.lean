import FourFunction.Decimal.Literal
import FourFunction.Text.Alphanumeric

/-!
# Field patterns

A journal filter may ask for the value of a field, by a number, a truth value or a regular
expression. Nothing here matches values against it: a value that is asked for can only be that of
a field of an enclosing span, and the calculator has none. What counts is whether the pattern can
be read at all.

A regular expression is alternatives, groups, repetitions by `*`, `+` and `?`, bracketed sets with
ranges and nested sets, anchors and escapes. It is scanned once from left to right, keeping the
number of open groups and of open brackets.
-/

namespace FourFunction.Pattern

/-- What a character or an escape stands for. -/
inductive Atom where
  /-- One character. -/
  | literal (c : Char)
  /-- A set of characters. -/
  | set
  /-- A place in the text, and no character. -/
  | anchor
deriving DecidableEq, Repr

/-- The value of a hexadecimal digit. -/
def hexValue? (c : Char) : Option Nat :=
  if c.isDigit then some (c.toNat - '0'.toNat)
  else if 'a' ≤ c ∧ c ≤ 'f' then some (c.toNat - 'a'.toNat + 10)
  else if 'A' ≤ c ∧ c ≤ 'F' then some (c.toNat - 'A'.toNat + 10)
  else none

/-- The character of a code point in hexadecimal digits. -/
def ofHex? (digits : Text) : Option Atom := do
  let code ← digits.foldlM (fun n c => (hexValue? c).map (n * 16 + ·)) 0
  if code.isValidChar then some (.literal (Char.ofNat code)) else none

/-- What one character after a backslash stands for. Letters and digits have a meaning each or
none; other characters of ASCII stand for themselves. -/
def ofEscaped? (c : Char) : Option Atom :=
  match c with
  | 'a' => some (.literal '\x07')
  | 'f' => some (.literal '\x0c')
  | 'n' => some (.literal '\n')
  | 'r' => some (.literal '\r')
  | 't' => some (.literal '\t')
  | 'v' => some (.literal '\x0b')
  | 'd' | 'D' | 's' | 'S' | 'w' | 'W' => some .set
  | 'A' | 'z' => some .anchor
  | _ =>
    if c.toNat < 128 ∧ !c.isAlphanum ∧ c ≠ '<' ∧ c ≠ '>' then some (.literal c) else none

/-- Reads an escape after its backslash, and gives the rest. -/
def readEscape? : Text → Option (Atom × Text)
  | 'x' :: a :: b :: rest => (ofHex? [a, b]).map (·, rest)
  | 'u' :: a :: b :: c :: d :: rest => (ofHex? [a, b, c, d]).map (·, rest)
  | 'U' :: a :: b :: c :: d :: e :: f :: g :: h :: rest =>
    (ofHex? [a, b, c, d, e, f, g, h]).map (·, rest)
  | 'p' :: category :: rest | 'P' :: category :: rest =>
    if "CLMNPSZ".toList.contains category then some (.set, rest) else none
  | c :: rest => (ofEscaped? c).map (·, rest)
  | [] => none

/-- Reads one character or escape, and gives the rest. -/
def readAtom? : Text → Option (Atom × Text)
  | '\\' :: rest => readEscape? rest
  | c :: rest => some (.literal c, rest)
  | [] => none

/-- Reads a member of a bracketed set: a character, a set, or a range of characters that does not
run backwards. A hyphen before another or before the end of the set makes no range. -/
def readMember? (text : Text) : Option Text := do
  let (first, rest) ← readAtom? text
  if first = .anchor then none
  else match rest with
    | '-' :: next :: more =>
      if next = ']' ∨ next = '-' then some rest
      else match first, ← readAtom? (next :: more) with
        | .literal low, (.literal high, rest) => if low ≤ high then some rest else none
        | _, _ => none
    | _ => some rest

/-- The rest of a bracketed set after what can only stand at its start: a caret, and then hyphens
or a closing bracket that are members. -/
def afterBracket (text : Text) : Text :=
  let body := if text.head? = some '^' then text.tail else text
  if body.head? = some ']' then body.tail else body.dropWhile (· == '-')

/-- The name of a group: a letter or an underscore, then also digits, points and brackets. -/
def isGroupName (name : Text) : Bool :=
  match name with
  | [] => false
  | first :: rest =>
    (first == '_' || isAlphanumeric first && !first.isDigit) &&
      rest.all fun c => isAlphanumeric c || "_.[]".toList.contains c

/-- Flags of a group: each at most once, and at most one minus sign, which is not the last. -/
def areFlags (flags : Text) : Bool :=
  flags.all ("imsUuRx-".toList.contains ·) && flags.all (flags.count · == 1) &&
    flags.getLast? != some '-'

/-- How a group begins. -/
inductive Opening where
  /-- A group that a parenthesis closes. -/
  | group
  /-- Flags alone, which are closed already. -/
  | flags
deriving DecidableEq, Repr

/-- Reads the beginning of a group after its parenthesis, and gives the rest. -/
def readOpening? : Text → Option (Opening × Text)
  | '?' :: rest =>
    let named := if rest.head? = some 'P' then rest.tail else rest
    match named with
    | '<' :: name =>
      match name.dropWhile (· != '>') with
      | _ :: body => if isGroupName (name.takeWhile (· != '>')) then some (.group, body) else none
      | [] => none
    | _ =>
      let flags := rest.takeWhile fun c => c != ':' && c != ')'
      match rest.dropWhile (fun c => c != ':' && c != ')'), areFlags flags with
      | ':' :: body, true => some (.group, body)
      | ')' :: body, true => if flags = [] then none else some (.flags, body)
      | _, _ => none
  | rest => some (.group, rest)

/-- Scans a regular expression in which `groups` parentheses and `brackets` brackets are open.
Outside brackets, `operand` tells that there is something to repeat. Each step reads at least one
character, so a limit above the length of the text is never reached. -/
def scan (groups brackets : Nat) (operand : Bool) (text : Text) : (limit : Nat) → Bool
  | 0 => false
  | limit + 1 =>
    match brackets, text with
    | 0, [] => groups == 0
    | 0, '(' :: rest =>
      match readOpening? rest with
      | some (.group, body) => scan (groups + 1) 0 false body limit
      | some (.flags, body) => scan groups 0 false body limit
      | none => false
    | 0, ')' :: rest => groups != 0 && scan (groups - 1) 0 true rest limit
    | 0, '|' :: rest => scan groups 0 false rest limit
    | 0, '*' :: rest | 0, '+' :: rest | 0, '?' :: rest => operand && scan groups 0 true rest limit
    | 0, '{' :: _ => false
    | 0, '[' :: rest => scan groups 1 true (afterBracket rest) limit
    | 0, _ =>
      match readAtom? text with
      | some (_, rest) => scan groups 0 true rest limit
      | none => false
    | _ + 1, '[' :: rest => scan groups (brackets + 1) true (afterBracket rest) limit
    | outer + 1, ']' :: rest => scan groups outer true rest limit
    | _ + 1, '&' :: '&' :: rest | _ + 1, '-' :: '-' :: rest | _ + 1, '~' :: '~' :: rest =>
      scan groups brackets true rest limit
    | _ + 1, _ =>
      match readMember? text with
      | some rest => scan groups brackets true rest limit
      | none => false

/-- A regular expression that can be read. -/
def isExpression (text : Text) : Bool :=
  scan 0 0 false text (text.length + 1)

/-- A number with a plus sign in front: infinity, not a number, or a literal that may have an
exponent. No regular expression starts with a plus sign. -/
def isPositiveNumber (text : Text) : Bool :=
  match text with
  | '+' :: number =>
    let word := String.ofList (number.map Char.toLower)
    let isMark := fun c : Char => c == 'e' || c == 'E'
    let digits := match number.dropWhile (!isMark ·) with
      | [] => ['0']
      | _ :: '+' :: digits | _ :: '-' :: digits | _ :: digits => digits
    word == "inf" || word == "infinity" || word == "nan" ||
      (Literal.ofText? (number.takeWhile (!isMark ·))).isSome && !digits.isEmpty &&
        digits.all Char.isDigit
  | _ => false

/-- A pattern for the value of a field that can be read. -/
def isReadable (text : Text) : Bool :=
  isExpression text || isPositiveNumber text

end FourFunction.Pattern
