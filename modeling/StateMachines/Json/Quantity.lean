import StateMachines.Number.Binary64
import StateMachines.Number.Numeral

/-! # What a numeral is worth

A whole number of at most 64 bits is exact. Everything else is a double, which is found from the
digits that fit into 64 bits: they are converted, then multiplied or divided by the power of ten
that is left, with one rounding each. Digits beyond those are dropped, whole ones counting for the
power of ten; so the double is not always the nearest one. A number too large for a double is no
number.
-/

namespace StateMachines

/-- A number as it is read: exact if it is whole and fits into 64 bits, else a double. -/
inductive Quantity
  | integer (n : Int)
  | float (x : Binary64)
deriving DecidableEq, Repr

namespace Quantity

/-- Digits that fit into 64 bits and the power of ten that stands beside them. -/
structure Digits where
  significand : Nat
  exponent : Int
deriving DecidableEq, Repr

/-- Drop digits at the end until the number fits into 64 bits; at most `limit` are dropped. -/
def fit : (limit : Nat) → (whole : Nat) → (dropped : Nat) → Digits
  | 0, whole, dropped => ⟨whole, dropped⟩
  | limit + 1, whole, dropped =>
    if whole < 2 ^ 64 then ⟨whole, dropped⟩ else fit limit (whole / 10) (dropped + 1)

/-- Take fraction digits as long as the number fits into 64 bits. -/
def takeFraction (d : Digits) : List Digit → Digits
  | [] => d
  | digit :: rest =>
    let longer := 10 * d.significand + digit.val
    if longer < 2 ^ 64 then takeFraction ⟨longer, d.exponent - 1⟩ rest else d

/-- The digits of a numeral that count. -/
def digitsOf (n : Numeral) : Digits :=
  let whole := fit n.whole.log2 n.whole 0
  let all := takeFraction whole n.fraction
  ⟨all.significand, all.exponent + n.exponent.getD 0⟩

/-- Ten to a power, rounded to a double. -/
def powerOfTen (n : Nat) : Binary64 := .ofInt (10 ^ n : Nat)

/-- A double times ten to a power. The powers reach from 0 to 308: a quotient by a higher one is
taken in two steps, and is zero past the second. There is no product past the largest double. -/
def scale? (x : Binary64) (exponent : Int) : Option Binary64 :=
  let n := exponent.natAbs
  if 0 ≤ exponent then
    if x.magnitude = 0 then some x
    else if 308 < n then none
    else
      let product := x.mul (powerOfTen n)
      if product.isInfinite then none else some product
  else if n ≤ 308 then some (x.div (powerOfTen n))
  else if n ≤ 616 then some ((x.div (powerOfTen 308)).div (powerOfTen (n - 308)))
  else some (.zero false)

end Quantity

namespace Numeral

/-- The numeral has neither a fraction nor an exponent. -/
def isWhole (n : Numeral) : Bool := n.fraction.isEmpty && n.exponent.isNone

/-- The double of a numeral, unless it is out of range. -/
def binary64? (n : Numeral) : Option Binary64 := do
  let digits := Quantity.digitsOf n
  let x ← Quantity.scale? (.ofInt digits.significand) digits.exponent
  some (if n.negative then x.neg else x)

/-- What a numeral is worth, unless it is out of range. The negative zero is a double. -/
def quantity? (n : Numeral) : Option Quantity :=
  if n.isWhole && !n.negative && n.whole < 2 ^ 64 then some (.integer n.whole)
  else if n.isWhole && n.negative && 0 < n.whole && n.whole ≤ 2 ^ 63 then
    some (.integer (-(n.whole : Int)))
  else n.binary64?.map .float

end Numeral

namespace Quantity

/-- The number as a double. -/
def toBinary64 : Quantity → Binary64
  | integer n => .ofInt n
  | float x => x

end Quantity

end StateMachines
