import StateMachines.Expr.Evaluation

/-! # Guards

A guard is an expression that has to be true for a transition to fire. Evaluating it changes
nothing.
-/

namespace StateMachines

/-- A condition, perhaps with a name by which it can be used. -/
structure Guard where
  name : Option String
  expression : Expr
deriving DecidableEq, Repr

namespace Guard

/-- The inline guard of an expression. -/
def ofExpr (expression : Expr) : Guard := ⟨none, expression⟩

/-- The guard under a name. -/
def named (g : Guard) (name : String) : Guard := { g with name := some name }

/-- Whether the guard lets pass; a value that is no boolean is an error. -/
def evaluate (g : Guard) (x : Extent) : Except EvaluationError Bool := do
  let v ← g.expression.evaluate x
  Evaluation.expectBool (.guard g.name) v

end Guard

end StateMachines
