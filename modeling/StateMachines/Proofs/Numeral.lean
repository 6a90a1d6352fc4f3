import StateMachines.Json.Quantity
import StateMachines.Json.Token

/-! # Numerals read back

Every numeral is read from its own characters: digits stop at the point, at the exponent and at the
end of the word, and the sign is the only character that no digit is.
-/

namespace StateMachines

namespace Json

variable {rest : List Char}

theorem whole?_digitChars (n : Nat) (stop : rest.head?.bind Digit.ofChar? = none) :
    whole? (digitChars n ++ rest) = some (n, rest) := by
  have spanned : spanDigits (digitChars n ++ rest) = (digits n, rest) := spanDigits_chars _ stop
  have value := ofDigits_digits n
  rw [whole?, spanned]
  rcases shape : digits n with _ | ⟨d, _ | ⟨e, ds⟩⟩
  · exact absurd shape (digits_ne_nil n)
  · rw [shape] at value
    simpa [ofDigits] using value
  · -- Zero has one digit, and no other number starts with it.
    have leading : d ≠ .zero := by
      rintro rfl
      rcases Nat.eq_zero_or_pos n with rfl | positive
      · simp [digits, digitsWithin] at shape
      · exact head_digits_ne_zero positive (by simp [shape, Digit.zero])
    rw [shape] at value
    simp [leading, value]

theorem fraction?_chars (ds : List Digit) (stop : rest.head?.bind Digit.ofChar? = none)
    (noPoint : rest.head? ≠ some '.') :
    fraction? ((if ds.isEmpty then [] else '.' :: ds.map Digit.char) ++ rest) =
      some (ds, rest) := by
  cases ds with
  | nil =>
    cases rest with
    | nil => rfl
    | cons c rest =>
      have other : c ≠ '.' := by simpa using noPoint
      simp [fraction?, other]
  | cons d ds =>
    have spanned := spanDigits_chars (d :: ds) stop
    simp only [List.map_cons, List.cons_append] at spanned
    simp [fraction?, spanned]

theorem exponentDigits?_digitChars (n : Nat) : exponentDigits? (digitChars n) = some n := by
  have spanned : spanDigits (digitChars n) = (digits n, []) := by
    have stop : ([] : List Char).head?.bind Digit.ofChar? = none := rfl
    simpa [digitChars] using spanDigits_chars (digits n) stop
  have value := ofDigits_digits n
  rw [exponentDigits?, spanned]
  cases shape : digits n with
  | nil => exact absurd shape (digits_ne_nil n)
  | cons d ds =>
    rw [shape] at value
    simp [value]

theorem exponent?_exponentChars (e : Int) :
    exponent? (Numeral.exponentChars e) = some (some e) := by
  rcases Int.lt_or_le e 0 with negative | nonnegative
  · have value : -(e.natAbs : Int) = e := by omega
    rw [Numeral.exponentChars, if_pos negative, exponent?, signedExponent?,
      exponentDigits?_digitChars]
    simp only [Option.bind_eq_bind, Option.bind_some, Option.pure_def, Option.map_some, value]
  · have value : (e.natAbs : Int) = e := by omega
    rw [Numeral.exponentChars, if_neg (Int.not_lt.mpr nonnegative), exponent?, signedExponent?,
      exponentDigits?_digitChars]
    simp only [Option.bind_eq_bind, Option.bind_some, Option.pure_def, Option.map_some, value]

/-- A numeral is read from its characters after the sign. -/
theorem unsigned?_chars (n : Numeral) :
    unsigned? n.negative { n with negative := false }.chars = some n := by
  obtain ⟨negative, whole, fraction, exponent⟩ := n
  obtain ⟨last, chars, lastRead, lastHead⟩ : ∃ last : List Char,
      Numeral.chars ⟨false, whole, fraction, exponent⟩ = digitChars whole ++
        ((if fraction.isEmpty then [] else '.' :: fraction.map Digit.char) ++ last) ∧
      exponent? last = some exponent ∧ (last.head? = none ∨ last.head? = some 'e') := by
    cases exponent with
    | none => exact ⟨[], by simp [Numeral.chars], rfl, .inl rfl⟩
    | some e =>
      exact ⟨Numeral.exponentChars e, by simp [Numeral.chars], exponent?_exponentChars e, .inr rfl⟩
  have lastStop : last.head?.bind Digit.ofChar? = none := by
    rcases lastHead with none | e
    · rw [none]
      rfl
    · rw [e]
      decide
  have noPoint : last.head? ≠ some '.' := by rcases lastHead with head | head <;> simp [head]
  have wholeStop : ((if fraction.isEmpty then [] else '.' :: fraction.map Digit.char)
      ++ last).head?.bind Digit.ofChar? = none := by
    cases fraction with
    | nil => simpa using lastStop
    | cons d ds =>
      rw [List.isEmpty_cons, if_neg (by decide), List.cons_append, List.head?_cons]
      decide
  rw [chars, unsigned?, whole?_digitChars whole wholeStop]
  simp only [Option.bind_eq_bind, Option.bind_some, fraction?_chars fraction lastStop noPoint,
    lastRead]

/-- A numeral is read from its own characters. -/
theorem numeral?_chars (n : Numeral) : numeral? n.chars = some n := by
  have read := unsigned?_chars n
  cases sign : n.negative with
  | true =>
    have chars : n.chars = '-' :: { n with negative := false }.chars := by
      simp [Numeral.chars, sign]
    rw [chars, numeral?, ← sign, read]
  | false =>
    have same : { n with negative := false } = n := by
      rw [← sign]
    rw [same, sign] at read
    -- The first character is a digit, so it is no sign.
    obtain ⟨d, rest, chars⟩ : ∃ (d : Digit) (rest : List Char), n.chars = d.char :: rest := by
      cases shape : digits n.whole with
      | nil => exact absurd shape (digits_ne_nil _)
      | cons d ds => exact ⟨d, _, by simp [Numeral.chars, sign, digitChars, shape]; rfl⟩
    have unlike : d.char ≠ '-' := by
      clear chars
      revert d
      decide
    rw [chars] at read ⊢
    rw [numeral?, read]
    rintro _ begins
    exact unlike (List.cons.inj begins).1

end Json

namespace Numeral

/-- The numeral of a whole number of at most 64 bits is worth that number. -/
theorem quantity?_ofInt {n : Int} (low : -2 ^ 63 ≤ n) (high : n < 2 ^ 64) :
    (ofInt n).quantity? = some (.integer n) := by
  simp only [quantity?, ofInt, isWhole, List.isEmpty_nil, Option.isNone_none, Bool.true_and]
  rcases Int.lt_or_le n 0 with negative | nonnegative
  · have nonzero : 0 < n.natAbs := by omega
    have fits : n.natAbs ≤ 2 ^ 63 := by omega
    have value : -(n.natAbs : Int) = n := by omega
    simp only [negative, nonzero, fits, value, decide_true, Bool.not_true, Bool.false_and,
      Bool.and_self, Bool.false_eq_true, if_false, if_true]
  · have fits : n.natAbs < 2 ^ 64 := by omega
    have value : (n.natAbs : Int) = n := by omega
    simp only [Int.not_lt.mpr nonnegative, fits, value, decide_true, decide_false, Bool.not_false,
      Bool.and_self, if_true]

end Numeral

end StateMachines
