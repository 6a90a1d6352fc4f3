import StateMachines.Expr.Evaluation

/-! # Exact integers

Sums, differences and products of integers are computed in 64 bits and never wrap. What they are is
said over unbounded integers. Evaluation answers the exact value if the exact value of every part
fits, and otherwise the overflow of the first part that does not, operands before their operator.
One step is shown for all three operators; the rest is an induction on what the expression denotes.
-/

namespace StateMachines

namespace Evaluation

/-- The whole numbers from the least to the greatest that 64 bits with a sign can hold. -/
def InRange (n : Int) : Prop := Int64.minValue.toInt ≤ n ∧ n ≤ Int64.maxValue.toInt

theorem inRange_iff {n : Int} : InRange n ↔ -2 ^ 63 ≤ n ∧ n < 2 ^ 63 := by
  have least : Int64.minValue.toInt = -2 ^ 63 := rfl
  have greatest : Int64.maxValue.toInt = 2 ^ 63 - 1 := rfl
  rw [InRange, least, greatest]
  omega

theorem fits_iff {n : Int} : fits n = true ↔ InRange n := by
  rw [inRange_iff]
  simp [fits]

theorem inRange_toInt (n : Int64) : InRange n.toInt := ⟨n.minValue_le_toInt, n.toInt_le⟩

theorem toInt_ofInt_of_inRange {n : Int} (small : InRange n) : (Int64.ofInt n).toInt = n := by
  obtain ⟨low, high⟩ := inRange_iff.mp small
  exact Int64.toInt_ofInt_of_le low high

/-- An operator on two integers gives the exact result if that fits, and else overflows. -/
theorem arithmetic_integers_cases (op : BinaryOp) (m n : Int64) :
    (InRange (exact op m.toInt n.toInt) ∧
      ∃ k : Int64, arithmetic op (.integer m) (.integer n) = .ok (.integer k) ∧
        k.toInt = exact op m.toInt n.toInt) ∨
      (¬ InRange (exact op m.toInt n.toInt) ∧
        arithmetic op (.integer m) (.integer n) = .error (.overflow op)) := by
  simp only [arithmetic, ← fits_iff]
  cases fit : fits (exact op m.toInt n.toInt) with
  | true => exact .inl ⟨rfl, _, rfl, toInt_ofInt_of_inRange (fits_iff.mp fit)⟩
  | false => exact .inr ⟨Bool.false_ne_true, rfl⟩

end Evaluation

namespace Expr

open Evaluation

variable {x : Extent} {e left right : Expr} {m n : Int}

/-! ## What is exact -/

/-- The exact value of an expression of integers. Literals and variables that read as integers have
one, and so have their sums, differences and products, of any depth. -/
inductive Denotes (x : Extent) : Expr → Int → Prop
  | literal (n : Int64) : Denotes x (.literal (.integer n)) n.toInt
  | var {name : String} {n : Int64} (visible : x.get name = .ok (.integer n)) :
      Denotes x (.var name) n.toInt
  | sum {left right : Expr} {m n : Int} (first : Denotes x left m) (second : Denotes x right n) :
      Denotes x (.binary .add left right) (m + n)
  | difference {left right : Expr} {m n : Int} (first : Denotes x left m)
      (second : Denotes x right n) : Denotes x (.binary .sub left right) (m - n)
  | product {left right : Expr} {m n : Int} (first : Denotes x left m)
      (second : Denotes x right n) : Denotes x (.binary .mul left right) (m * n)

/-- The parts of an expression, itself included, in the order in which they come to their values:
operands before their operator, the left one first. -/
def inOrder : Expr → List Expr
  | literal value => [literal value]
  | var name => [var name]
  | not operand => operand.inOrder ++ [not operand]
  | binary op left right => left.inOrder ++ right.inOrder ++ [binary op left right]

/-- The exact value of an expression lies in the range of integers. -/
def Fits (x : Extent) (e : Expr) : Prop := ∃ n, e.Denotes x n ∧ InRange n

/-- The exact value of an expression lies outside of the range of integers. -/
def Leaves (x : Extent) (e : Expr) : Prop := ∃ n, e.Denotes x n ∧ ¬ InRange n

/-- The exact values of all parts of an expression fit. -/
def AllFit (x : Extent) (e : Expr) : Prop := ∀ part ∈ e.inOrder, part.Fits x

/-- The first part of an expression whose exact value does not fit is made by an operator. -/
def LeavesFirst (x : Extent) (e : Expr) (op : BinaryOp) : Prop :=
  ∃ before left right after, e.inOrder = before ++ binary op left right :: after ∧
    (∀ part ∈ before, part.Fits x) ∧ (binary op left right).Leaves x

/-- An expression has one exact value. -/
theorem Denotes.unique (one : e.Denotes x m) (other : e.Denotes x n) : m = n := by
  induction one generalizing n with
  | literal _ => cases other; rfl
  | var visible =>
    cases other with
    | var visible' =>
      obtain rfl := Value.integer.inj (Except.ok.inj (visible.symm.trans visible'))
      rfl
  | sum _ _ ihLeft ihRight =>
    cases other with
    | sum first second => rw [ihLeft first, ihRight second]
  | difference _ _ ihLeft ihRight =>
    cases other with
    | difference first second => rw [ihLeft first, ihRight second]
  | product _ _ ihLeft ihRight =>
    cases other with
    | product first second => rw [ihLeft first, ihRight second]

/-- No exact value both fits and does not. -/
theorem Leaves.not_fits (leaves : e.Leaves x) : ¬ e.Fits x := by
  rintro ⟨m, one, small⟩
  obtain ⟨n, other, large⟩ := leaves
  exact large (one.unique other ▸ small)

theorem LeavesFirst.not_allFit {op : BinaryOp} (first : e.LeavesFirst x op) : ¬ e.AllFit x := by
  obtain ⟨before, left, right, after, split, -, leaves⟩ := first
  intro all
  exact leaves.not_fits (all _ (by simp [split]))

/-! ## What is computed -/

/-- What is promised of an expression with an exact value: it is answered if all parts fit, and the
first part that does not overflows. -/
def Computes (x : Extent) (e : Expr) (n : Int) : Prop :=
  (e.AllFit x ∧ ∃ k : Int64, e.evaluate x = .ok (.integer k) ∧ k.toInt = n) ∨
    ∃ op, e.LeavesFirst x op ∧ e.evaluate x = .error (.overflow op)

/-- What overflows in the left operand overflows in the whole, before anything else. -/
theorem LeavesFirst.of_left {op inner : BinaryOp} (first : left.LeavesFirst x inner) :
    (binary op left right).LeavesFirst x inner := by
  obtain ⟨before, l, r, after, split, small, leaves⟩ := first
  exact ⟨before, l, r, after ++ right.inOrder ++ [binary op left right],
    by simp [inOrder, split], small, leaves⟩

/-- What overflows in the right operand overflows in the whole, if the left one fits. -/
theorem LeavesFirst.of_right {op inner : BinaryOp} (all : left.AllFit x)
    (first : right.LeavesFirst x inner) : (binary op left right).LeavesFirst x inner := by
  obtain ⟨before, l, r, after, split, small, leaves⟩ := first
  exact ⟨left.inOrder ++ before, l, r, after ++ [binary op left right],
    by simp [inOrder, split], List.forall_mem_append.mpr ⟨all, small⟩, leaves⟩

/-- An operator computes two integers after its operands are computed. -/
theorem evaluate_binary {op : BinaryOp} (reads : decides? op = none) (x : Extent)
    (left right : Expr) : (binary op left right).evaluate x =
      left.evaluate x >>= fun l => right.evaluate x >>= fun r => strict op l r := by
  simp only [evaluate, evaluateWith, reads]

/-- An operator keeps the promise if its operands do. -/
theorem Computes.binary {op : BinaryOp} (reads : decides? op = none)
    (computes : strict op = arithmetic op) (first : left.Computes x m) (second : right.Computes x n)
    (whole : (Expr.binary op left right).Denotes x (exact op m n)) :
    (Expr.binary op left right).Computes x (exact op m n) := by
  unfold Computes
  rw [evaluate_binary reads]
  rcases first with ⟨allLeft, k, l, rfl⟩ | ⟨inner, leaves, failed⟩
  · rcases second with ⟨allRight, k', r, rfl⟩ | ⟨inner, leaves, failed⟩
    · have operands : ∀ part ∈ left.inOrder ++ right.inOrder, part.Fits x :=
        List.forall_mem_append.mpr ⟨allLeft, allRight⟩
      have done : (left.evaluate x >>= fun l => right.evaluate x >>= fun r => strict op l r) =
          arithmetic op (.integer k) (.integer k') := by
        rw [l, r, ← computes]
        rfl
      rw [done]
      rcases arithmetic_integers_cases op k k' with ⟨small, answered⟩ | ⟨large, overflow⟩
      · have itself : ∀ part ∈ [Expr.binary op left right], part.Fits x :=
          List.forall_mem_singleton.mpr ⟨_, whole, small⟩
        exact .inl ⟨List.forall_mem_append.mpr ⟨operands, itself⟩, answered⟩
      · exact .inr ⟨op, ⟨_, left, right, [], rfl, operands, _, whole, large⟩, overflow⟩
    · exact .inr ⟨inner, leaves.of_right allLeft, by rw [l, failed]; rfl⟩
  · exact .inr ⟨inner, leaves.of_left, by rw [failed]; rfl⟩

/-- A leaf is its own only part, and its value fits. -/
theorem Computes.leaf {k : Int64} (single : e.inOrder = [e]) (denotes : e.Denotes x k.toInt)
    (answered : e.evaluate x = .ok (.integer k)) : e.Computes x k.toInt := by
  have all : e.AllFit x := by
    rw [AllFit, single]
    exact List.forall_mem_singleton.mpr ⟨_, denotes, inRange_toInt k⟩
  exact .inl ⟨all, k, answered, rfl⟩

theorem Denotes.computes (denotes : e.Denotes x n) : e.Computes x n := by
  induction denotes with
  | literal n => exact .leaf rfl (.literal n) rfl
  | var visible =>
    refine .leaf rfl (.var visible) ?_
    rw [evaluate, evaluateWith, visible]
    rfl
  | sum first second ihLeft ihRight => exact .binary rfl rfl ihLeft ihRight (.sum first second)
  | difference first second ihLeft ihRight =>
    exact .binary rfl rfl ihLeft ihRight (.difference first second)
  | product first second ihLeft ihRight =>
    exact .binary rfl rfl ihLeft ihRight (.product first second)

/-- An expression of integers is answered with its exact value if the exact values of all its parts
fit. Otherwise it overflows in the operator of the first part whose exact value does not fit, even
if its own would. -/
theorem evaluate_exact (denotes : e.Denotes x n) :
    (e.AllFit x → ∃ k : Int64, e.evaluate x = .ok (.integer k) ∧ k.toInt = n) ∧
      (¬ e.AllFit x → ∃ op, e.LeavesFirst x op ∧ e.evaluate x = .error (.overflow op)) := by
  rcases denotes.computes with ⟨all, answered⟩ | ⟨op, first, overflow⟩
  · exact ⟨fun _ => answered, fun some => absurd all some⟩
  · exact ⟨fun all => absurd all first.not_allFit, fun _ => ⟨op, first, overflow⟩⟩

/-- Two numbers that are equal and one too large, taken from each other. -/
def cancelled : Expr :=
  .binary .sub (.binary .add (.var "most") (.literal (.integer 1)))
    (.binary .mul (.literal (.integer Int64.minValue)) (.literal (.integer (-1))))

/-- A context in which the greatest integer can be read. -/
def withMost : Extent :=
  .ofMemories [⟨.machineLocal, .ofList [("most", .integer Int64.maxValue)]⟩]

theorem evaluate_exact_cancelled : cancelled.Denotes withMost 0 ∧ InRange 0 ∧
    cancelled.LeavesFirst withMost .add ∧
      cancelled.evaluate withMost = .error (.overflow .add) := by
  have value : Int64.maxValue.toInt + (1 : Int64).toInt -
      Int64.minValue.toInt * (-1 : Int64).toInt = 0 := by decide
  have denotes : cancelled.Denotes withMost 0 := by
    rw [← value]
    exact .difference (.sum (.var rfl) (.literal 1)) (.product (.literal _) (.literal (-1)))
  obtain ⟨fitting, leaving⟩ := evaluate_exact denotes
  have overflow : cancelled.evaluate withMost = .error (.overflow .add) := rfl
  have large : ¬ cancelled.AllFit withMost := by
    intro all
    obtain ⟨k, answered, -⟩ := fitting all
    rw [overflow] at answered
    cases answered
  obtain ⟨op, first, failed⟩ := leaving large
  rw [overflow] at failed
  obtain rfl := EvaluationError.overflow.inj (Except.error.inj failed)
  exact ⟨denotes, ⟨by decide, by decide⟩, first, overflow⟩

end Expr

end StateMachines
