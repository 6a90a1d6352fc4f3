import StateMachines.Context.Extent
import StateMachines.Expr.Basic

/-! # Evaluation

An expression is evaluated against what its names read, from left to right; the right operand of
`&&` and `||` only if the left one does not decide. Integers are exact or overflow, other numbers
are doubles, and two texts may be joined. Numbers are equal as doubles; the order compares
integers exactly.
-/

namespace StateMachines

/-- What is being computed when an operand has the wrong type. -/
inductive Operation
  | negation
  | binary (op : BinaryOp)
  | guard (name : Option String)
deriving DecidableEq, Repr

/-- What an operand should have been. -/
inductive Expectation
  | bool
  | number
deriving DecidableEq, Repr

/-- Why an expression has no value. -/
inductive EvaluationError
  | context (e : ContextError)
  | typeMismatch (operation : Operation) (expected : Expectation) (found : Value.Kind)
  | overflow (op : BinaryOp)
deriving DecidableEq, Repr

namespace Operation

/-- The operation, as diagnostics write it. -/
def text : Operation → String
  | negation => "!"
  | binary op => op.symbol
  | guard (some name) => "guard " ++ name
  | guard none => "guard <inline>"

end Operation

namespace Expectation

/-- The type that was expected. -/
def text : Expectation → String
  | bool => "bool"
  | number => "number"

end Expectation

namespace EvaluationError

/-- The error as a sentence. -/
def message : EvaluationError → String
  | context e => e.message
  | typeMismatch operation expected found =>
    s!"Type mismatch in '{operation.text}': expected {expected.text}, found {found.name}"
  | overflow op => s!"Arithmetic overflow in '{op.symbol}'"

end EvaluationError

namespace Evaluation

/-- The boolean that an operand is. -/
def expectBool (operation : Operation) (v : Value) : Except EvaluationError Bool :=
  match v with
  | .bool b => .ok b
  | _ => .error (.typeMismatch operation .bool v.kind)

/-- The number that an operand is, as a double. -/
def expectNumber (op : BinaryOp) (v : Value) : Except EvaluationError Binary64 :=
  match v.asFloat with
  | some x => .ok x
  | none => .error (.typeMismatch (.binary op) .number v.kind)

/-- The result of an arithmetic operator on whole numbers. -/
def exact (op : BinaryOp) (m n : Int) : Int :=
  match op with
  | .add => m + n
  | .sub => m - n
  | _ => m * n

/-- The result of an arithmetic operator on doubles. -/
def rounded (op : BinaryOp) (x y : Binary64) : Binary64 :=
  match op with
  | .add => x.add y
  | .sub => x.sub y
  | _ => x.mul y

/-- A whole number that fits into 64 bits with its sign. -/
def fits (n : Int) : Bool := -2 ^ 63 ≤ n && n < 2 ^ 63

/-- Add, subtract or multiply; two texts can be added. -/
def arithmetic (op : BinaryOp) (left right : Value) : Except EvaluationError Value :=
  match left, right with
  | .integer m, .integer n =>
    let result := exact op m.toInt n.toInt
    if fits result then .ok (.integer (.ofInt result)) else .error (.overflow op)
  | .string s, .string t =>
    if op = .add then .ok (.string (s ++ t))
    else .error (.typeMismatch (.binary op) .number .string)
  | _, _ => do
    let x ← expectNumber op left
    let y ← expectNumber op right
    .ok (.float (rounded op x y))

/-- Numbers are equal as doubles, other values as `Value.equals` says. -/
def same (left right : Value) : Bool :=
  match left.asFloat, right.asFloat with
  | some x, some y => x.equals y
  | _, _ => left.equals right

/-- How two values are ordered: integers exactly, texts by code points, other numbers as doubles,
where a NaN has no order. -/
def order? (op : BinaryOp) (left right : Value) : Except EvaluationError (Option Ordering) :=
  match left, right with
  | .integer m, .integer n => .ok (some (compare m.toInt n.toInt))
  | .string s, .string t => .ok (some (compare s t))
  | _, _ => do
    let x ← expectNumber op left
    let y ← expectNumber op right
    .ok (x.compare? y)

/-- The orders at which a comparison holds. -/
def admits (op : BinaryOp) (o : Ordering) : Bool :=
  match op with
  | .lt => o.isLT
  | .le => o.isLE
  | .gt => o.isGT
  | _ => o.isGE

/-- Compare; nothing holds of values without an order. -/
def comparison (op : BinaryOp) (left right : Value) : Except EvaluationError Value := do
  let order ← order? op left right
  .ok (.bool (order.any (admits op)))

/-- The value of an operator that reads both operands. -/
def strict (op : BinaryOp) (left right : Value) : Except EvaluationError Value :=
  match op with
  | .add | .sub | .mul => arithmetic op left right
  | .eq => .ok (.bool (same left right))
  | .ne => .ok (.bool (!same left right))
  | _ => comparison op left right

/-- What the left operand decides alone: `false` for `&&` and `true` for `||`. -/
def decides? : BinaryOp → Option Bool
  | .and => some false
  | .or => some true
  | _ => none

end Evaluation

namespace Expr

open Evaluation

/-- The value of an expression whose names read as given. -/
def evaluateWith (read : String → Except ContextError Value) :
    Expr → Except EvaluationError Value
  | literal value => .ok value
  | var name => (read name).mapError .context
  | not operand => do
    let v ← operand.evaluateWith read
    let b ← expectBool .negation v
    .ok (.bool (!b))
  | binary op left right => do
    let l ← left.evaluateWith read
    match decides? op with
    | none =>
      let r ← right.evaluateWith read
      strict op l r
    | some decided =>
      let b ← expectBool (.binary op) l
      if b = decided then .ok (.bool b)
      else
        let r ← right.evaluateWith read
        let c ← expectBool (.binary op) r
        .ok (.bool c)

/-- The value of an expression in an extent. -/
def evaluate (x : Extent) (e : Expr) : Except EvaluationError Value := e.evaluateWith x.get

end Expr

end StateMachines
