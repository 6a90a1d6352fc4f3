import StateMachines.Value.Basic

/-! # Expressions

The expressions of actions, guards and context declarations: literals, variables, negation and
binary operators.
-/

namespace StateMachines

/-- The operators with two operands. -/
inductive BinaryOp
  | add
  | sub
  | mul
  | eq
  | ne
  | lt
  | le
  | gt
  | ge
  | and
  | or
deriving DecidableEq, Repr

namespace BinaryOp

/-- The sign of an operator, as diagnostics write it. -/
def symbol : BinaryOp → String
  | add => "+"
  | sub => "-"
  | mul => "*"
  | eq => "=="
  | ne => "!="
  | lt => "<"
  | le => "<="
  | gt => ">"
  | ge => ">="
  | and => "&&"
  | or => "||"

/-- The name of an operator, as declarations write it. -/
def name : BinaryOp → String
  | add => "add"
  | sub => "sub"
  | mul => "mul"
  | eq => "eq"
  | ne => "ne"
  | lt => "lt"
  | le => "le"
  | gt => "gt"
  | ge => "ge"
  | and => "and"
  | or => "or"

/-- All operators. -/
def all : List BinaryOp := [add, sub, mul, eq, ne, lt, le, gt, ge, and, or]

/-- The operator of a name. -/
def ofName? (name : String) : Option BinaryOp := all.find? fun op => op.name == name

@[simp] theorem ofName?_name (op : BinaryOp) : ofName? op.name = some op := by
  cases op <;> decide

end BinaryOp

/-- An expression over variables. -/
inductive Expr
  | literal (value : Value)
  | var (name : String)
  | not (operand : Expr)
  | binary (op : BinaryOp) (left right : Expr)
deriving DecidableEq, Repr, Inhabited

end StateMachines
