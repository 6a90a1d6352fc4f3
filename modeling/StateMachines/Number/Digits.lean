import StateMachines.Number.Power

/-! # Decimal digits

Whole numbers as decimal digits, most significant first, and back.
-/

namespace StateMachines

/-- A decimal digit. -/
abbrev Digit := Fin 10

namespace Digit

/-- The digit that is worth nothing. -/
def zero : Digit := 0

/-- The character of a digit. -/
def char (d : Digit) : Char := Char.ofNat ('0'.toNat + d)

/-- The digit of a character, if it is one of `0` to `9`. -/
def ofChar? (c : Char) : Option Digit :=
  if '0' ≤ c ∧ c ≤ '9' then some (Fin.ofNat 10 (c.toNat - '0'.toNat)) else none

@[simp] theorem ofChar?_char (d : Digit) : ofChar? d.char = some d := by
  revert d; decide

end Digit

/-- The number with the given digits. -/
def ofDigits (ds : List Digit) : Nat := ds.foldl (fun (n : Nat) (d : Digit) => 10 * n + d.val) 0

@[simp] theorem ofDigits_append_singleton (ds : List Digit) (d : Digit) :
    ofDigits (ds ++ [d]) = 10 * ofDigits ds + d.val := by
  simp [ofDigits]

/-- The digits of a number of at most `limit + 1` digits. -/
def digitsWithin : (limit : Nat) → Nat → List Digit
  | 0, n => [Fin.ofNat 10 n]
  | limit + 1, n =>
    if n < 10 then [Fin.ofNat 10 n] else digitsWithin limit (n / 10) ++ [Fin.ofNat 10 (n % 10)]

/-- The digits of a number; zero has one digit. -/
def digits (n : Nat) : List Digit := digitsWithin n.log2 n

private theorem lt_pow_log2 (n : Nat) : n < 10 ^ (n.log2 + 1) :=
  Nat.lt_of_lt_of_le Nat.lt_log2_self (Nat.pow_le_pow_left (by decide) _)

theorem ofDigits_digitsWithin {limit n : Nat} (bound : n < 10 ^ (limit + 1)) :
    ofDigits (digitsWithin limit n) = n := by
  induction limit generalizing n with
  | zero => simp [digitsWithin, ofDigits, Fin.ofNat]; omega
  | succ limit ih =>
    rw [digitsWithin]
    split
    · next small => simp [ofDigits, Fin.ofNat, Nat.mod_eq_of_lt small]
    · have smaller : n / 10 < 10 ^ (limit + 1) := by
        rw [Nat.pow_succ] at bound
        omega
      rw [ofDigits_append_singleton, ih smaller]
      simp only [Fin.ofNat]
      omega

@[simp] theorem ofDigits_digits (n : Nat) : ofDigits (digits n) = n :=
  ofDigits_digitsWithin (lt_pow_log2 n)

theorem digitsWithin_ne_nil (limit n : Nat) : digitsWithin limit n ≠ [] := by
  cases limit <;> rw [digitsWithin] <;> (try split) <;> simp

theorem digits_ne_nil (n : Nat) : digits n ≠ [] := digitsWithin_ne_nil _ n

/-- The digits of a positive number do not start with 0. -/
theorem head_digitsWithin_ne_zero {limit n : Nat} (positive : 0 < n)
    (bound : n < 10 ^ (limit + 1)) : (digitsWithin limit n).head? ≠ some 0 := by
  induction limit generalizing n with
  | zero => simp [digitsWithin, Fin.ext_iff, Fin.ofNat]; omega
  | succ limit ih =>
    rw [digitsWithin]
    split
    · simp [Fin.ext_iff, Fin.ofNat]; omega
    · have smaller : n / 10 < 10 ^ (limit + 1) := by
        rw [Nat.pow_succ] at bound
        omega
      have inner := ih (by omega : 0 < n / 10) smaller
      rw [List.head?_append]
      cases head : (digitsWithin limit (n / 10)).head? with
      | none => exact absurd (List.head?_eq_none_iff.1 head) (digitsWithin_ne_nil _ _)
      | some d => simpa [head] using inner

theorem head_digits_ne_zero {n : Nat} (positive : 0 < n) : (digits n).head? ≠ some 0 :=
  head_digitsWithin_ne_zero positive (lt_pow_log2 n)

/-- How many digits a number of at most `limit + 1` digits has. -/
def countWithin : (limit : Nat) → Nat → Nat
  | 0, _ => 1
  | limit + 1, n => if n < 10 then 1 else countWithin limit (n / 10) + 1

/-- How many digits a number has. -/
def digitCount (n : Nat) : Nat := countWithin n.log2 n

@[simp] theorem length_digits (n : Nat) : (digits n).length = digitCount n := by
  have within (limit m : Nat) : (digitsWithin limit m).length = countWithin limit m := by
    induction limit generalizing m with
    | zero => rfl
    | succ limit ih => rw [digitsWithin, countWithin]; split <;> simp [ih]
  exact within _ n

/-- A number has at most as many decimal digits as binary ones. -/
theorem digitCount_le (n : Nat) : digitCount n ≤ n.log2 + 1 := by
  have within (limit m : Nat) : countWithin limit m ≤ limit + 1 := by
    induction limit generalizing m with
    | zero => exact Nat.le_refl 1
    | succ limit ih =>
      have front := ih (m / 10)
      rw [countWithin]
      split <;> omega
  exact within _ n

/-- The last `width` digits of a number. -/
def fixedDigits : (width : Nat) → Nat → List Digit
  | 0, _ => []
  | width + 1, n => fixedDigits width (n / 10) ++ [Fin.ofNat 10 (n % 10)]

@[simp] theorem length_fixedDigits (width n : Nat) : (fixedDigits width n).length = width := by
  induction width generalizing n with
  | zero => rfl
  | succ width ih => simp [fixedDigits, ih]

/-- Fixed digits spell the part of the number that they show. -/
@[simp] theorem ofDigits_fixedDigits (width n : Nat) :
    ofDigits (fixedDigits width n) = n % 10 ^ width := by
  induction width generalizing n with
  | zero => simp [fixedDigits, ofDigits, Nat.mod_one]
  | succ width ih =>
    rw [fixedDigits, ofDigits_append_singleton, ih, Nat.pow_succ', Nat.mod_mul]
    simp only [Fin.ofNat]
    omega

/-- The characters of a number. -/
def digitChars (n : Nat) : List Char := (digits n).map Digit.char

/-- The characters of the last `width` digits of a number. -/
def fixedChars (width n : Nat) : List Char := (fixedDigits width n).map Digit.char

end StateMachines
