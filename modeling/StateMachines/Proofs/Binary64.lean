import StateMachines.Number.Binary64

/-! # Doubles and their places

Below the sign, the bits of a double count the places of the number line upwards: more of them is a
greater magnitude. So two numbers at one place are one double, the two zeros apart, and whole
numbers that differ have one place only where rounding has made them one double.
-/

namespace StateMachines

namespace Binary64

/-- The sixty-three bits below the sign. -/
def unsignedBits (x : Binary64) : Nat := x.bits.toNat % 2 ^ 63

theorem exponentField_eq (x : Binary64) : x.exponentField = x.unsignedBits / 2 ^ 52 := by
  simp only [exponentField, unsignedBits]
  omega

theorem fractionField_eq (x : Binary64) : x.fractionField = x.unsignedBits % 2 ^ 52 := by
  simp only [fractionField, unsignedBits]
  omega

theorem bits_eq (x : Binary64) :
    x.bits.toNat = (if x.negative then 2 ^ 63 else 0) + x.unsignedBits := by
  have bound := x.bits.toNat_lt
  simp only [negative, unsignedBits, decide_eq_true_eq]
  split <;> omega

/-- A double is its sign and the bits below it. -/
theorem eq_of_sign_of_unsignedBits {x y : Binary64} (sign : x.negative = y.negative)
    (rest : x.unsignedBits = y.unsignedBits) : x = y := by
  have same : x.bits.toNat = y.bits.toNat := by rw [bits_eq, bits_eq, sign, rest]
  cases x
  cases y
  exact congrArg mk (UInt64.toNat_inj.mp same)

/-! ## Magnitudes -/

theorem significand_lt (x : Binary64) : x.significand < 2 ^ 53 := by
  have := Nat.mod_lt x.bits.toNat (show 0 < 2 ^ 52 by decide)
  simp only [significand, fractionField]
  split <;> omega

/-- More bits below the sign are a greater magnitude. -/
theorem magnitude_lt {x y : Binary64} (less : x.unsignedBits < y.unsignedBits) :
    x.magnitude < y.magnitude := by
  have boundX := x.significand_lt
  simp only [magnitude, shift] at *
  rcases Nat.lt_or_ge x.exponentField y.exponentField with below | above
  · -- A higher exponent outweighs every fraction.
    have top : x.significand * 2 ^ (x.exponentField - 1) < 2 ^ 52 * 2 ^ (y.exponentField - 1) := by
      rcases Nat.eq_zero_or_pos x.exponentField with zero | positive
      · have small : x.significand < 2 ^ 52 := by
          have := Nat.mod_lt x.bits.toNat (show 0 < 2 ^ 52 by decide)
          simp only [significand, fractionField, if_pos zero]
          omega
        have one := Nat.one_le_two_pow (n := y.exponentField - 1)
        rw [zero]
        simp only [Nat.zero_sub, Nat.pow_zero, Nat.mul_one]
        omega
      · calc x.significand * 2 ^ (x.exponentField - 1)
            < 2 ^ 53 * 2 ^ (x.exponentField - 1) :=
              Nat.mul_lt_mul_of_pos_right boundX (Nat.two_pow_pos _)
          _ = 2 ^ 52 * 2 ^ x.exponentField := by
              rw [← Nat.pow_add, ← Nat.pow_add]
              congr 1
              omega
          _ ≤ 2 ^ 52 * 2 ^ (y.exponentField - 1) :=
              Nat.mul_le_mul_left _ (Nat.pow_le_pow_right (by decide) (by omega))
    have leading : 2 ^ 52 ≤ y.significand := by
      simp only [significand]
      split <;> omega
    exact Nat.lt_of_lt_of_le top (Nat.mul_le_mul_right _ leading)
  · have same : x.exponentField = y.exponentField := by
      simp only [exponentField_eq] at above ⊢
      omega
    have fraction : x.fractionField < y.fractionField := by
      simp only [exponentField_eq, fractionField_eq] at same ⊢
      omega
    rw [same]
    refine Nat.mul_lt_mul_of_pos_right ?_ (Nat.two_pow_pos _)
    simp only [significand, same]
    split <;> omega

theorem unsignedBits_eq_of_magnitude {x y : Binary64} (same : x.magnitude = y.magnitude) :
    x.unsignedBits = y.unsignedBits := by
  rcases Nat.lt_trichotomy x.unsignedBits y.unsignedBits with less | equal | greater
  · have := magnitude_lt less
    omega
  · exact equal
  · have := magnitude_lt greater
    omega

theorem unsignedBits_eq_zero_of_magnitude {x : Binary64} (none : x.magnitude = 0) :
    x.unsignedBits = 0 := by
  have bits : (zero false).unsignedBits = 0 := by decide
  have magnitude : (zero false).magnitude = 0 := by decide
  rw [← bits]
  exact unsignedBits_eq_of_magnitude (none.trans magnitude.symm)

theorem natAbs_place (x : Binary64) : x.place.natAbs = x.magnitude := by
  simp only [place]
  split <;> omega

/-- Numbers at one place have one magnitude. -/
theorem magnitude_eq_of_place {x y : Binary64} (same : x.place = y.place) :
    x.magnitude = y.magnitude := by
  rw [← natAbs_place, ← natAbs_place, same]

/-- Numbers of different signs meet only at zero. -/
theorem magnitude_eq_zero_of_place {x y : Binary64} (same : x.place = y.place)
    (apart : x.negative ≠ y.negative) : x.magnitude = 0 := by
  have equal := magnitude_eq_of_place same
  cases sign : x.negative with
  | true =>
    have other : y.negative = false := by simpa [sign] using apart.symm
    simp only [place, sign, other, if_true, Bool.false_eq_true, if_false] at same
    omega
  | false =>
    have other : y.negative = true := by simpa [sign] using apart.symm
    simp only [place, sign, other, if_true, Bool.false_eq_true, if_false] at same
    omega

/-! ## Packed and rounded numbers -/

theorem bits_pack {negative : Bool} {rest : Nat} (bound : rest < 2 ^ 63) :
    (pack negative rest).bits.toNat = (if negative then 2 ^ 63 else 0) + rest := by
  have total : (if negative then 2 ^ 63 else 0) + rest < 2 ^ 64 := by split <;> omega
  simp only [pack, UInt64.toNat_ofNat']
  exact Nat.mod_eq_of_lt total

theorem unsignedBits_pack {negative : Bool} {rest : Nat} (bound : rest < 2 ^ 63) :
    (pack negative rest).unsignedBits = rest := by
  rw [unsignedBits, bits_pack bound]
  split <;> omega

/-- Bits that do not pass those of the infinities are no NaN's. -/
theorem isNaN_pack {negative : Bool} {rest : Nat} (bound : rest ≤ 2047 * 2 ^ 52) :
    (pack negative rest).isNaN = false := by
  rw [isNaN, exponentField_eq, fractionField_eq, unsignedBits_pack (by omega)]
  rcases Nat.lt_or_ge (rest / 2 ^ 52) 2047 with below | above
  · simp [Nat.ne_of_lt below]
  · have top : rest = 2047 * 2 ^ 52 := by omega
    simp [top]

theorem isNaN_round (negative : Bool) (a d : Nat) : (round negative a d).isNaN = false :=
  isNaN_pack (Nat.min_le_right _ _)

theorem nearest_one (a : Nat) : nearest a 1 = a := by
  simp [nearest, Nat.mod_one]

/-- Only nothing rounds to zero when the unit is the smallest double. -/
theorem eq_zero_of_unsignedBits_round {negative : Bool} {a : Nat}
    (none : (round negative a 1).unsignedBits = 0) : a = 0 := by
  rw [round, unsignedBits_pack (Nat.lt_of_le_of_lt (Nat.min_le_right _ _) (by decide))] at none
  have least : shiftOf a 1 * 2 ^ 52 + nearest a (1 * 2 ^ shiftOf a 1) = 0 := by omega
  have unshifted : shiftOf a 1 = 0 := by omega
  rw [unshifted, Nat.pow_zero, Nat.mul_one, nearest_one] at least
  omega

theorem isNaN_ofInt (n : Int) : (ofInt n).isNaN = false := isNaN_round _ _ _

/-- Only zero is converted to a double without magnitude. -/
theorem eq_zero_of_magnitude_ofInt {n : Int} (none : (ofInt n).magnitude = 0) : n = 0 := by
  have scaled : n.natAbs * 2 ^ 1074 = 0 :=
    eq_zero_of_unsignedBits_round (unsignedBits_eq_zero_of_magnitude none)
  have whole := (Nat.mul_eq_zero.mp scaled).resolve_right (Nat.ne_of_gt (Nat.two_pow_pos 1074))
  omega

/-- Whole numbers stand at one place of the number line only if they are one double. -/
theorem place_ofInt_inj {m n : Int} : (ofInt m).place = (ofInt n).place ↔ ofInt m = ofInt n := by
  constructor
  · intro same
    have rest := unsignedBits_eq_of_magnitude (magnitude_eq_of_place same)
    by_cases signs : (ofInt m).negative = (ofInt n).negative
    · exact eq_of_sign_of_unsignedBits signs rest
    · -- They meet at zero, where the negative one cannot be.
      have left := eq_zero_of_magnitude_ofInt (magnitude_eq_zero_of_place same signs)
      have right := eq_zero_of_magnitude_ofInt
        (magnitude_eq_zero_of_place same.symm (Ne.symm signs))
      rw [left, right]
  · intro same
    rw [same]

end Binary64

end StateMachines
