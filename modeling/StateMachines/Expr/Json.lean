import StateMachines.Expr.Basic
import StateMachines.Value.Json

/-! # Expressions as JSON

An expression is written as a case; a binary one holds a record of its operator and operands.
-/

namespace StateMachines

namespace BinaryOp

def toJson (op : BinaryOp) : Json := .ofText op.name

def ofJson? (lenient : Bool) (room : Nat) (j : Json) : Option BinaryOp :=
  (j.unitTag? lenient room).bind ofName?

end BinaryOp

namespace Expr

/-- The case of an expression. -/
def toJson : Expr → Json
  | literal value => .tagged "literal" value.toJson
  | var name => .tagged "variable" (.ofText name)
  | not operand => .tagged "not" operand.toJson
  | binary op left right =>
    .tagged "binary"
      (.ofMembers [("op", op.toJson), ("left", left.toJson), ("right", right.toJson)])

/-- The expression of a tree. -/
def ofJson? (lenient : Bool) : (room : Nat) → Json → Option Expr
  | 0, _ => none
  | room + 1, j =>
    match j with
    | .object [(some tag, payload)] =>
      if tag = "literal" then (Value.ofJson? lenient room payload).map literal
      else if tag = "variable" then payload.asText?.map var
      else if tag = "not" then (ofJson? lenient room payload).map not
      else if tag = "binary" then
        match room with
        | 0 => none
        | inner + 1 => do
          let field? ← payload.fields? ["op", "left", "right"]
          let op ← (field? "op").bind (BinaryOp.ofJson? lenient inner)
          let left ← (field? "left").bind (ofJson? lenient inner)
          let right ← (field? "right").bind (ofJson? lenient inner)
          some (binary op left right)
      else none
    | _ => none

end Expr

end StateMachines
