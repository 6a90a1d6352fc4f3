import StateMachines.Number.Binary64
import StateMachines.Number.Numeral

/-! # The shortest decimal that reads back

Every double is the nearest one to a whole interval of real numbers. Among the decimals in that
interval the shortest has the fewest digits, and of those with the fewest digits it is the nearest
to the double itself. The search is in exact whole-number arithmetic: on the grid of decimals with
`n` digits, if any point lies in the interval then so does one of the two neighbours of the double.
-/

namespace StateMachines

/-- The number `digits · 10 ^ exponent`. -/
structure Decimal where
  digits : Nat
  exponent : Int
deriving DecidableEq, Repr

/-- Which of two equally near decimals is taken: the greater, or the one with an even last digit. -/
inductive Tie
  | up
  | even
deriving DecidableEq, Repr

/-- The real numbers that round to a double, in units of 2⁻¹⁰⁷⁶. -/
structure RoundingInterval where
  low : Nat
  value : Nat
  high : Nat
  /-- The ends themselves round to the double. -/
  closed : Bool

namespace Binary64

/-- The interval of the absolute value of a finite double. Below a power of two the doubles are
twice as dense. -/
def roundingInterval (x : Binary64) : RoundingInterval where
  low := (4 * x.significand - if x.significand = 2 ^ 52 ∧ 0 < x.shift then 1 else 2) * 2 ^ x.shift
  value := 4 * x.significand * 2 ^ x.shift
  high := (4 * x.significand + 2) * 2 ^ x.shift
  closed := x.significand % 2 == 0

end Binary64

/-- The grid of multiples of `10 ^ e`, as a fraction of units of 2⁻¹⁰⁷⁶. -/
structure DecimalGrid where
  num : Nat
  den : Nat

namespace DecimalGrid

/-- The multiples of a power of ten. -/
def ofExponent (e : Int) : DecimalGrid :=
  if 0 ≤ e then ⟨10 ^ e.toNat * 2 ^ 1076, 1⟩ else ⟨2 ^ 1076, 10 ^ (-e).toNat⟩

/-- The multiple `k` lies in the interval. -/
def holds (g : DecimalGrid) (i : RoundingInterval) (k : Nat) : Bool :=
  if i.closed then i.low * g.den ≤ k * g.num && k * g.num ≤ i.high * g.den
  else i.low * g.den < k * g.num && k * g.num < i.high * g.den

/-- The multiple nearest the value among its two neighbours that lie in the interval. -/
def neighbour? (g : DecimalGrid) (i : RoundingInterval) (tie : Tie) : Option Nat :=
  let k := i.value * g.den / g.num
  let below := i.value * g.den - k * g.num
  let above := (k + 1) * g.num - i.value * g.den
  match g.holds i k, g.holds i (k + 1) with
  | false, false => none
  | true, false => some k
  | false, true => some (k + 1)
  | true, true =>
    if below < above then some k
    else if above < below then some (k + 1)
    else match tie with
      | .up => some (k + 1)
      | .even => some (if k % 2 = 0 then k else k + 1)

end DecimalGrid

/-- The power of ten of the first digit of a positive value in units of 2⁻¹⁰⁷⁶. Every double is
above 10⁻⁴⁰⁰. -/
def leadingPower (value : Nat) : Int :=
  (digitCount (value * 10 ^ 400 / 2 ^ 1076) : Int) - 401

/-- Drop zeros at the end of the digits, at most `limit` of them. -/
def Decimal.trim : (limit : Nat) → Decimal → Decimal
  | 0, d => d
  | limit + 1, d =>
    if d.digits % 10 = 0 ∧ d.digits ≠ 0 then trim limit ⟨d.digits / 10, d.exponent + 1⟩ else d

/-- The shortest decimal for the absolute value of a finite double other than zero. Seventeen
digits always suffice. -/
def Binary64.shortest (x : Binary64) (tie : Tie) : Decimal :=
  let i := x.roundingInterval
  let lead := leadingPower i.value
  let found := (List.range 17).findSome? fun (n : Nat) =>
    let e := lead - n
    ((DecimalGrid.ofExponent e).neighbour? i tie).map fun k => Decimal.mk k e
  match found with
  | some d => d.trim 20
  | none => ⟨0, 0⟩

/-- How a double is written. -/
structure FloatStyle where
  /-- Which of two equally near shortest decimals is written. -/
  tie : Tie
  /-- The leading powers of ten, first included and last excluded, between which no exponent is
  written; without bounds an exponent is never written. -/
  positional : Option (Int × Int)
  /-- What is written after a whole number without an exponent. -/
  wholeFraction : List Digit

namespace Decimal

/-- The decimal without an exponent. -/
def positional (d : Decimal) (negative : Bool) (wholeFraction : List Digit) : Numeral :=
  if 0 ≤ d.exponent then ⟨negative, d.digits * 10 ^ d.exponent.toNat, wholeFraction, none⟩
  else
    let places := (-d.exponent).toNat
    ⟨negative, d.digits / 10 ^ places, fixedDigits places d.digits, none⟩

/-- The decimal with one digit before the point and an exponent. -/
def scientific (d : Decimal) (negative : Bool) : Numeral :=
  match StateMachines.digits d.digits with
  | [] => ⟨negative, 0, [], none⟩
  | first :: rest => ⟨negative, first, rest, some (d.exponent + rest.length)⟩

end Decimal

/-- The numeral of a finite double. -/
def Binary64.numeral (style : FloatStyle) (x : Binary64) : Numeral :=
  if x.magnitude = 0 then ⟨x.negative, 0, style.wholeFraction, none⟩
  else
    let d := x.shortest style.tie
    let lead := d.exponent + digitCount d.digits - 1
    match style.positional with
    | none => d.positional x.negative style.wholeFraction
    | some (first, last) =>
      if first ≤ lead ∧ lead < last then d.positional x.negative style.wholeFraction
      else d.scientific x.negative

end StateMachines
