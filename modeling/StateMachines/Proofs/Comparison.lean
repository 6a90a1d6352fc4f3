import StateMachines.Expr.Evaluation
import StateMachines.Proofs.Binary64

/-! # Comparisons

The order compares integers exactly, while equality widens them to doubles first. The six
comparisons of two values therefore tell one story, except where two different integers widen to
one double: there `<` or `>` holds, and `==` holds as well.
-/

namespace StateMachines

/-- A float that is no number. -/
def Value.isNaN : Value → Bool
  | float x => x.isNaN
  | _ => false

/-- Two different integers that widen to one double. -/
def Value.Collide (left right : Value) : Prop :=
  ∃ m n : Int64, left = .integer m ∧ right = .integer n ∧ m ≠ n ∧
    Binary64.ofInt m.toInt = Binary64.ofInt n.toInt

/-- The operators that compare. -/
def BinaryOp.comparisons : List BinaryOp := [eq, ne, lt, le, gt, ge]

/-- The six comparisons of two expressions have a value, and of `<`, `==` and `>` exactly one
holds, on which the other three depend. -/
def Expr.ComparesConsistently (x : Extent) (left right : Expr) : Prop :=
  ∃ holds : BinaryOp → Bool,
    (∀ op ∈ BinaryOp.comparisons,
      (Expr.binary op left right).evaluate x = .ok (.bool (holds op))) ∧
    [holds .lt, holds .eq, holds .gt].count true = 1 ∧
    holds .le = (holds .lt || holds .eq) ∧
    holds .ge = (holds .gt || holds .eq) ∧
    holds .ne = !holds .eq

namespace Evaluation

variable {op : BinaryOp} {left right : Value}

/-! ## Which values have an order -/

/-- Two values that can be compared are two integers, two texts, or two numbers of which one is a
float; only two numbers may lack an order. -/
theorem order?_cases {order : Option Ordering} (done : order? op left right = .ok order) :
    (∃ m n, left = .integer m ∧ right = .integer n ∧ order = some (compare m.toInt n.toInt)) ∨
    (∃ s t, left = .string s ∧ right = .string t ∧ order = some (compare s t)) ∨
    (∃ x y, left.asFloat = some x ∧ right.asFloat = some y ∧ order = x.compare? y ∧
      ∀ m n, left = .integer m → right ≠ .integer n) := by
  cases left <;> cases right
  case integer.integer m n =>
    refine .inl ⟨m, n, rfl, rfl, ?_⟩
    simpa [order?] using done.symm
  case string.string s t =>
    refine .inr (.inl ⟨s, t, rfl, rfl, ?_⟩)
    simpa [order?] using done.symm
  all_goals
    first
    | exact .inr (.inr ⟨_, _, rfl, rfl, (Except.ok.inj done).symm, by simp⟩)
    | cases done

/-- The operator is read only to report an operand of the wrong type. -/
theorem order?_of_ok {order : Option Ordering} (done : order? op left right = .ok order)
    (other : BinaryOp) : order? other left right = .ok order := by
  cases left <;> cases right <;> first | exact done | cases done

/-- Values that can be compared are ordered, a NaN apart. -/
theorem exists_order {order : Option Ordering} (done : order? op left right = .ok order)
    (numberLeft : left.isNaN = false) (numberRight : right.isNaN = false) :
    ∃ o, order = some o := by
  have widened {v : Value} {x : Binary64} (number : v.isNaN = false)
      (float : v.asFloat = some x) : x.isNaN = false := by
    cases v with
    | integer n =>
      obtain rfl : Binary64.ofInt n.toInt = x := by simpa [Value.asFloat] using float
      exact Binary64.isNaN_ofInt _
    | float y =>
      obtain rfl : y = x := by simpa [Value.asFloat] using float
      exact number
    | _ => simp [Value.asFloat] at float
  rcases order?_cases done with
    ⟨m, n, -, -, rfl⟩ | ⟨s, t, -, -, rfl⟩ | ⟨x, y, ofLeft, ofRight, rfl, -⟩
  · exact ⟨_, rfl⟩
  · exact ⟨_, rfl⟩
  · simp [Binary64.compare?, widened numberLeft ofLeft, widened numberRight ofRight]

/-- Equality says that the order is `eq`, unless two integers collide: then it says so although one
of them is less. -/
theorem same_eq_iff {o : Ordering} (ordered : order? op left right = .ok (some o)) :
    same left right = (o == .eq) ↔ ¬ left.Collide right := by
  rcases order?_cases ordered with
    ⟨m, n, rfl, rfl, compared⟩ | ⟨s, t, rfl, rfl, compared⟩ |
      ⟨x, y, ofLeft, ofRight, compared, mixed⟩
  · -- Equal integers are equal doubles; different ones are so only if they collide.
    obtain rfl : o = compare m.toInt n.toInt := by simpa using compared
    have exact : (compare m.toInt n.toInt == .eq) = decide (m = n) := by
      rw [Bool.eq_iff_iff]
      simp [Int64.toInt_inj]
    have wide : same (.integer m) (.integer n) =
        decide (Binary64.ofInt m.toInt = Binary64.ofInt n.toInt) := by
      rw [Bool.eq_iff_iff]
      simp [same, Value.asFloat, Binary64.equals, Binary64.isNaN_ofInt, Binary64.place_ofInt_inj]
    rw [exact, wide]
    simp only [Value.Collide, Value.integer.injEq]
    by_cases equal : m = n <;> simp [equal]
  · obtain rfl : o = compare s t := by simpa using compared
    rw [Bool.eq_iff_iff]
    simp [same, Value.asFloat, Value.equals, Value.Collide]
  · have equal : x.equals y = (o == .eq) := by
      rw [Bool.eq_iff_iff, Binary64.equals_iff, ← compared]
      simp
    have apart : ¬ left.Collide right := by
      rintro ⟨m, n, isLeft, isRight, -⟩
      exact mixed m n isLeft isRight
    simp [same, ofLeft, ofRight, equal, apart]

/-- Where `<` has a value and no operand is a NaN, one order stands behind the four inequalities. -/
theorem exists_order_of_lt {v : Value} (less : strict .lt left right = .ok v)
    (numberLeft : left.isNaN = false) (numberRight : right.isNaN = false) :
    ∃ o, ∀ op, order? op left right = .ok (some o) := by
  cases done : order? .lt left right with
  | error e =>
    change comparison .lt left right = .ok v at less
    rw [comparison, done] at less
    cases less
  | ok order =>
    obtain ⟨o, rfl⟩ := exists_order done numberLeft numberRight
    exact ⟨o, order?_of_ok done⟩

/-- What a comparison says of operands in a given order. -/
def verdict (op : BinaryOp) (left right : Value) (o : Ordering) : Bool :=
  match op with
  | .eq => same left right
  | .ne => !same left right
  | _ => admits op o

theorem strict_of_order {o : Ordering} (ordered : ∀ op, order? op left right = .ok (some o))
    (compares : op ∈ BinaryOp.comparisons) :
    strict op left right = .ok (.bool (verdict op left right o)) := by
  simp only [BinaryOp.comparisons, List.mem_cons, List.not_mem_nil, or_false] at compares
  rcases compares with rfl | rfl | rfl | rfl | rfl | rfl <;>
    simp [strict, comparison, ordered, verdict, bind, Except.bind]

end Evaluation

namespace Expr

open Evaluation

/-- A comparison reads both operands. -/
theorem evaluate_comparison {x : Extent} {left right : Expr} {l r : Value}
    (readLeft : left.evaluate x = .ok l) (readRight : right.evaluate x = .ok r) {op : BinaryOp}
    (compares : op ∈ BinaryOp.comparisons) :
    (Expr.binary op left right).evaluate x = strict op l r := by
  have undecided : decides? op = none := by
    simp only [BinaryOp.comparisons, List.mem_cons, List.not_mem_nil, or_false] at compares
    rcases compares with rfl | rfl | rfl | rfl | rfl | rfl <;> rfl
  simp only [evaluate] at readLeft readRight
  simp only [evaluate, evaluateWith, readLeft, readRight, undecided]
  rfl

/-- Where `<` has a value and no operand is a NaN, the six comparisons form one order exactly if the
operands are not two different integers that widen to one double. -/
theorem comparesConsistently_iff (x : Extent) {left right : Expr} {l r : Value}
    (readLeft : left.evaluate x = .ok l) (readRight : right.evaluate x = .ok r)
    (comparable : ∃ v, (Expr.binary .lt left right).evaluate x = .ok v)
    (numberLeft : l.isNaN = false) (numberRight : r.isNaN = false) :
    ComparesConsistently x left right ↔ ¬ l.Collide r := by
  obtain ⟨v, less⟩ := comparable
  rw [evaluate_comparison readLeft readRight (by decide)] at less
  obtain ⟨o, ordered⟩ := exists_order_of_lt less numberLeft numberRight
  have values : ∀ op ∈ BinaryOp.comparisons,
      (Expr.binary op left right).evaluate x = .ok (.bool (verdict op l r o)) := by
    intro op compares
    rw [evaluate_comparison readLeft readRight compares, strict_of_order ordered compares]
  rw [← same_eq_iff (ordered .lt)]
  constructor
  · rintro ⟨holds, said, one, -, -, -⟩
    have agree {op : BinaryOp} (compares : op ∈ BinaryOp.comparisons) :
        holds op = verdict op l r o := by
      simpa [values op compares] using (said op compares).symm
    rw [agree (by decide), agree (by decide), agree (by decide)] at one
    cases o <;> cases equal : same l r <;> simp_all [verdict, admits]
  · intro agree
    refine ⟨fun op => verdict op l r o, values, ?_⟩
    cases o <;> simp_all [verdict, admits]

theorem comparesConsistently_integer_float :
    ComparesConsistently (.ofMemories []) (.literal (.integer 3))
      (.literal (.float ⟨0x4004000000000000⟩)) :=
  (comparesConsistently_iff (.ofMemories []) rfl rfl ⟨_, rfl⟩ rfl (by decide)).mpr
    (by rintro ⟨m, n, -, float, -⟩; cases float)

/-- 2⁵³ is less than 2⁵³ + 1, and equal to it. -/
theorem not_comparesConsistently_two_pow_53 :
    let m := literal (.integer 9007199254740992)
    let n := literal (.integer 9007199254740993)
    (binary .lt m n).evaluate (.ofMemories []) = .ok (.bool true) ∧
      (binary .eq m n).evaluate (.ofMemories []) = .ok (.bool true) ∧
      ¬ ComparesConsistently (.ofMemories []) m n := by
  intro m n
  have less : (binary .lt m n).evaluate (.ofMemories []) = .ok (.bool true) := rfl
  have equal : (binary .eq m n).evaluate (.ofMemories []) = .ok (.bool true) := by
    have widened : same (.integer 9007199254740992) (.integer 9007199254740993) = true := by
      decide +kernel
    rw [evaluate_comparison rfl rfl (by decide), strict, widened]
  refine ⟨less, equal, ?_⟩
  rintro ⟨holds, values, one, -⟩
  have isLess : holds .lt = true := by simpa [less] using (values .lt (by decide)).symm
  have isEqual : holds .eq = true := by simpa [equal] using (values .eq (by decide)).symm
  cases greater : holds .gt <;> simp [isLess, isEqual, greater] at one

end Expr

end StateMachines
