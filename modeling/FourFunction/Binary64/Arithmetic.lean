import FourFunction.Binary64.Basic

/-!
# Arithmetic on doubles

The four operations of IEEE 754 on doubles, under its default rounding. On finite operands each is
the exact rational result, rounded once; zeros, infinities and NaN follow the standard's table.
An exact result of zero carries a sign of its own: in a sum it is negative only when both operands
are, in a product or a quotient it is negative when the signs differ.
-/

namespace FourFunction.Binary64

/-- The same double with the other sign. -/
def neg : Binary64 → Binary64
  | finite negative m => finite (!negative) m
  | infinity negative => infinity (!negative)
  | nan => nan

/-- The sum. Infinities of opposite signs have none. -/
def add : Binary64 → Binary64 → Binary64
  | finite n a, finite m b =>
    let sum := signedRat n a + signedRat m b
    round (if sum = 0 then n && m else decide (sum < 0)) sum.abs
  | infinity n, infinity m => if n = m then infinity n else nan
  | infinity n, finite _ _ => infinity n
  | finite _ _, infinity m => infinity m
  | nan, _ => nan
  | _, nan => nan

/-- The difference: the sum with the second operand's sign reversed. -/
def sub (x y : Binary64) : Binary64 := add x (neg y)

/-- The product. An infinity and a zero have none. -/
def mul : Binary64 → Binary64 → Binary64
  | finite n a, finite m b => round (n != m) (a.toRat * b.toRat)
  | infinity n, infinity m => infinity (n != m)
  | infinity n, finite m b => if b = .zero then nan else infinity (n != m)
  | finite n a, infinity m => if a = .zero then nan else infinity (n != m)
  | nan, _ => nan
  | _, nan => nan

/-- The quotient. Two zeros, and two infinities, have none; any other number over a zero is an
infinity. -/
def div : Binary64 → Binary64 → Binary64
  | finite n a, finite m b =>
    if b = .zero then
      if a = .zero then nan else infinity (n != m)
    else round (n != m) (a.toRat / b.toRat)
  | infinity _, infinity _ => nan
  | infinity n, finite m _ => infinity (n != m)
  | finite n _, infinity m => finite (n != m) .zero
  | nan, _ => nan
  | _, nan => nan

instance : Neg Binary64 := ⟨neg⟩
instance : Add Binary64 := ⟨add⟩
instance : Sub Binary64 := ⟨sub⟩
instance : Mul Binary64 := ⟨mul⟩
instance : Div Binary64 := ⟨div⟩

/-- A difference is a sum with the second operand's sign reversed. -/
theorem sub_eq_add_neg (x y : Binary64) : x - y = x + -y := rfl

/-- Reversing the sign twice changes nothing. -/
@[simp]
theorem neg_neg (x : Binary64) : - -x = x := by
  show neg (neg x) = x
  cases x <;> simp [neg]

/-- Reversing the sign keeps a double finite or not. -/
@[simp]
theorem isFinite_neg (x : Binary64) : (-x).isFinite = x.isFinite := by
  show (neg x).isFinite = x.isFinite
  cases x <;> rfl

end FourFunction.Binary64
