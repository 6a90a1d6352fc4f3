import StateMachines.Number.Power

/-! # Hexadecimal digits

Whole numbers as hexadecimal digits, most significant first, and back. Letters are written in lower
case and read in either.
-/

namespace StateMachines

namespace Hexadecimal

/-- The character of a digit. -/
def char (d : Fin 16) : Char :=
  if d.val < 10 then Char.ofNat ('0'.toNat + d.val) else Char.ofNat ('a'.toNat + (d.val - 10))

/-- The digit of a character. -/
def digit? (c : Char) : Option (Fin 16) :=
  if '0' ≤ c ∧ c ≤ '9' then some (Fin.ofNat 16 (c.toNat - '0'.toNat))
  else if 'a' ≤ c ∧ c ≤ 'f' then some (Fin.ofNat 16 (c.toNat - 'a'.toNat + 10))
  else if 'A' ≤ c ∧ c ≤ 'F' then some (Fin.ofNat 16 (c.toNat - 'A'.toNat + 10))
  else none

@[simp] theorem digit?_char (d : Fin 16) : digit? (char d) = some d := by
  revert d; decide

/-- The last `width` digits of a number. -/
def fixed : (width : Nat) → Nat → List Char
  | 0, _ => []
  | width + 1, n => fixed width (n / 16) ++ [char (Fin.ofNat 16 (n % 16))]

@[simp] theorem length_fixed (width n : Nat) : (fixed width n).length = width := by
  induction width generalizing n with
  | zero => rfl
  | succ width ih => simp [fixed, ih]

/-- The digits of a number; zero has one digit. -/
def chars (n : Nat) : List Char :=
  if n < 16 then [char (Fin.ofNat 16 n)] else chars (n / 16) ++ [char (Fin.ofNat 16 (n % 16))]

/-- The number that some characters spell after another one. -/
def readFrom? (n : Nat) (cs : List Char) : Option Nat :=
  cs.foldlM (fun n c => (digit? c).map fun d => 16 * n + d.val) n

/-- The number that some characters spell. -/
def read? (cs : List Char) : Option Nat := readFrom? 0 cs

theorem readFrom?_append (n : Nat) (front back : List Char) :
    readFrom? n (front ++ back) = (readFrom? n front).bind fun m => readFrom? m back := by
  simp [readFrom?]

/-- Fixed digits are read back as the part of the number that they show. -/
@[simp] theorem read?_fixed (width n : Nat) : read? (fixed width n) = some (n % 16 ^ width) := by
  induction width generalizing n with
  | zero => simp [fixed, read?, readFrom?, Nat.mod_one]
  | succ width ih =>
    have high : readFrom? 0 (fixed width (n / 16)) = some (n / 16 % 16 ^ width) := ih (n / 16)
    rw [fixed, read?, readFrom?_append, high]
    simp only [readFrom?, Option.bind_some, List.foldlM_cons, List.foldlM_nil, digit?_char,
      Option.map_some, Option.pure_def, Option.bind_eq_bind, Option.some.injEq, Fin.ofNat]
    rw [Nat.pow_succ', Nat.mod_mul]
    omega

end Hexadecimal

end StateMachines
