import StateMachines.Number.Digits

/-! # Decimal numerals

A numeral is a number as it is written: a sign, a whole part, the digits after a point, and an
exponent of ten. It says how a number looks and leaves what it is worth to its readers.
-/

namespace StateMachines

/-- A written number. Without fraction digits there is no point, without an exponent no `e`. -/
structure Numeral where
  negative : Bool
  whole : Nat
  fraction : List Digit
  exponent : Option Int
deriving DecidableEq, Repr

namespace Numeral

/-- The numeral of a whole number. -/
def ofInt (n : Int) : Numeral := ⟨n < 0, n.natAbs, [], none⟩

/-- A sign, then digits; a positive exponent shows its sign too. -/
def exponentChars (e : Int) : List Char :=
  'e' :: (if e < 0 then '-' else '+') :: digitChars e.natAbs

/-- The characters of a numeral. -/
def chars (n : Numeral) : List Char :=
  (if n.negative then ['-'] else []) ++ digitChars n.whole
    ++ (if n.fraction.isEmpty then [] else '.' :: n.fraction.map Digit.char)
    ++ (match n.exponent with | none => [] | some e => exponentChars e)

/-- The text of a numeral. -/
def text (n : Numeral) : String := .ofList n.chars

end Numeral

end StateMachines
