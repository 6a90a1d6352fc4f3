import StateMachines.Number.Power

/-! # Double-precision numbers

An IEEE 754 double is held as its bit pattern, so every pattern, each NaN included, is a value of
its own, and equality of values is equality of bits. The numeric reading is exact: a finite double
is a whole number of units of 2⁻¹⁰⁷⁴, its *magnitude*, with a sign. Order and numeric equality
compare those numbers, and each operation is its exact result rounded to the nearest double, a tie
going to the even significand.
-/

namespace StateMachines

/-- A double, as its 64 bits: sign, eleven exponent bits, fifty-two fraction bits. -/
structure Binary64 where
  bits : UInt64
deriving DecidableEq, Repr

namespace Binary64

/-- The sign bit is set. -/
def negative (x : Binary64) : Bool := 2 ^ 63 ≤ x.bits.toNat

/-- The exponent field. -/
def exponentField (x : Binary64) : Nat := x.bits.toNat / 2 ^ 52 % 2 ^ 11

/-- The fraction field. -/
def fractionField (x : Binary64) : Nat := x.bits.toNat % 2 ^ 52

/-- No number: all exponent bits are set, and some fraction bit. -/
def isNaN (x : Binary64) : Bool := x.exponentField == 2047 && x.fractionField != 0

/-- An infinity: all exponent bits are set, and no fraction bit. -/
def isInfinite (x : Binary64) : Bool := x.exponentField == 2047 && x.fractionField == 0

/-- A number. -/
def isFinite (x : Binary64) : Bool := x.exponentField != 2047

/-- The digits of the number in base two: the fraction with its leading one, which the smallest
numbers do not have. -/
def significand (x : Binary64) : Nat :=
  if x.exponentField = 0 then x.fractionField else 2 ^ 52 + x.fractionField

/-- The exponent of the significand's last bit, counted from that of the smallest number. -/
def shift (x : Binary64) : Nat := x.exponentField - 1

/-- The absolute value in units of 2⁻¹⁰⁷⁴. An infinity stands at 2²⁰⁹⁸, above every number. -/
def magnitude (x : Binary64) : Nat := x.significand * 2 ^ x.shift

/-- The place of a double on the number line, in units of 2⁻¹⁰⁷⁴; both zeros stand at 0. -/
def place (x : Binary64) : Int := if x.negative then -(x.magnitude : Int) else x.magnitude

/-- Numeric equality: the zeros are equal and a NaN equals nothing. -/
def equals (x y : Binary64) : Bool := !x.isNaN && !y.isNaN && x.place == y.place

/-- How two doubles are ordered, unless one is a NaN. -/
def compare? (x y : Binary64) : Option Ordering :=
  if x.isNaN || y.isNaN then none else some (compare x.place y.place)

/-! ## Rounding -/

/-- The whole number nearest `a / d`; a half goes to the even neighbour. -/
def nearest (a d : Nat) : Nat :=
  let q := a / d
  let r := a % d
  if 2 * r < d then q else if d < 2 * r then q + 1 else q + q % 2

/-- The shift at which `a / d` units have a significand of fifty-three bits, or 0 if they have
fewer. -/
def shiftOf (a d : Nat) : Nat :=
  let s := a.log2 - (d.log2 + 52)
  if a < d * 2 ^ (s + 52) then s - 1 else s

/-- A sign over the sixty-three other bits. -/
def pack (negative : Bool) (rest : Nat) : Binary64 :=
  ⟨.ofNat ((if negative then 2 ^ 63 else 0) + rest)⟩

/-- The double nearest `a / d` units of 2⁻¹⁰⁷⁴. A significand that rounds up to the next power of
two carries into the exponent, and a number past the largest becomes infinite. -/
def round (negative : Bool) (a d : Nat) : Binary64 :=
  let s := shiftOf a d
  pack negative (min (s * 2 ^ 52 + nearest a (d * 2 ^ s)) (2047 * 2 ^ 52))

/-! ## Constants and conversions -/

/-- The zero of a sign. -/
def zero (negative : Bool) : Binary64 := pack negative 0

/-- The infinity of a sign. -/
def infinity (negative : Bool) : Binary64 := pack negative (2047 * 2 ^ 52)

/-- The NaN that operations answer. -/
def nan : Binary64 := ⟨0x7ff8000000000000⟩

/-- The double nearest a whole number. -/
def ofInt (n : Int) : Binary64 := round (n < 0) (n.natAbs * 2 ^ 1074) 1

/-! ## Operations -/

/-- The other sign. -/
def neg (x : Binary64) : Binary64 := ⟨x.bits ^^^ 0x8000000000000000⟩

/-- The sum; opposite numbers give the positive zero. -/
def add (x y : Binary64) : Binary64 :=
  if x.isNaN || y.isNaN then nan
  else if x.isInfinite then
    if y.isInfinite && x.negative != y.negative then nan else x
  else if y.isInfinite then y
  else
    let sum := x.place + y.place
    if sum = 0 then zero (x.negative && y.negative) else round (sum < 0) sum.natAbs 1

/-- The difference. -/
def sub (x y : Binary64) : Binary64 := x.add y.neg

/-- The product; zero times an infinity is no number. -/
def mul (x y : Binary64) : Binary64 :=
  let sign := x.negative != y.negative
  if x.isNaN || y.isNaN then nan
  else if x.isInfinite || y.isInfinite then
    if x.magnitude = 0 || y.magnitude = 0 then nan else infinity sign
  else round sign (x.magnitude * y.magnitude) (2 ^ 1074)

/-- The quotient; zero by zero and infinity by infinity are no numbers. -/
def div (x y : Binary64) : Binary64 :=
  let sign := x.negative != y.negative
  if x.isNaN || y.isNaN || (x.isInfinite && y.isInfinite) then nan
  else if x.isInfinite then infinity sign
  else if y.isInfinite then zero sign
  else if y.magnitude = 0 then
    if x.magnitude = 0 then nan else infinity sign
  else round sign (x.magnitude * 2 ^ 1074) y.magnitude

/-! ## Order -/

/-- Numeric equality and the order agree. -/
theorem equals_iff (x y : Binary64) : x.equals y = true ↔ x.compare? y = some .eq := by
  unfold equals compare?
  cases x.isNaN <;> cases y.isNaN <;> simp

end Binary64

end StateMachines
