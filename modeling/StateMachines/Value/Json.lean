import StateMachines.Json.Record
import StateMachines.Number.Shortest
import StateMachines.Value.Basic

/-! # Values as JSON

A value is written as a case: its type, with its contents. Floats that are no numbers have no
numeral and are written as `null`, which no float is read from.
-/

namespace StateMachines

namespace Value

/-- Floats are written with a point or an exponent, from 10⁻⁵ up to below 10¹⁶ without an
exponent; a half goes to the even digit. -/
def jsonStyle : FloatStyle := ⟨.even, some (-5, 16), [.zero]⟩

/-- The numeral of a float, if it is a number. -/
def floatToJson (x : Binary64) : Json :=
  if x.isFinite then .number (x.numeral jsonStyle) else .null

mutual

/-- The case of a value. -/
def toJson : Value → Json
  | null => .ofText "null"
  | bool b => .tagged "bool" (.bool b)
  | integer n => .tagged "integer" (.number (.ofInt n.toInt))
  | float x => .tagged "float" (floatToJson x)
  | string s => .tagged "string" (.ofText s)
  | list items => .tagged "list" (.array (listToJson items))

def listToJson : List Value → List Json
  | [] => []
  | item :: rest => item.toJson :: listToJson rest

end

/-- A signed 64-bit integer; a numeral with a point or an exponent is none. -/
def integerOfJson? (j : Json) : Option Int64 :=
  match j.asQuantity? with
  | some (.integer n) => if -2 ^ 63 ≤ n ∧ n < 2 ^ 63 then some (.ofInt n) else none
  | _ => none

/-- A value without parts, from its type and contents. -/
def leafOfJson? (lenient : Bool) (tag : String) (payload : Json) : Option Value :=
  if tag = "null" then if payload.isUnit lenient then some null else none
  else if tag = "bool" then payload.asBool?.map bool
  else if tag = "integer" then (integerOfJson? payload).map integer
  else if tag = "float" then payload.asQuantity?.map fun q => float q.toBinary64
  else if tag = "string" then payload.asText?.map string
  else none

/-- The value of a tree. -/
def ofJson? (lenient : Bool) : (room : Nat) → Json → Option Value
  | 0, j => if j.asText? = some "null" then some null else none
  | room + 1, j =>
    match j with
    | .text (some "null") => some null
    | .object [(some "list", payload)] =>
      match room, payload with
      | inner + 1, .array items => (items.mapM (ofJson? lenient inner)).map list
      | _, _ => none
    | .object [(some tag, payload)] => leafOfJson? lenient tag payload
    | _ => none

end Value

end StateMachines
