import StateMachines.Number.Binary64

/-! # Values

What a variable holds: plain data with two kinds of numbers. Lean's equality tells any two values
apart, a NaN from another one included; `Value.equals` is the equality of the language, in which
floats compare as numbers.
-/

namespace StateMachines

/-- A value of the expression language. -/
inductive Value
  | null
  | bool (b : Bool)
  | integer (n : Int64)
  | float (x : Binary64)
  | string (s : String)
  | list (items : List Value)
deriving Repr, Inhabited

/-- The types of values, as diagnostics name them. -/
inductive Value.Kind
  | null
  | bool
  | integer
  | float
  | string
  | list
deriving DecidableEq, Repr

namespace Value

namespace Kind

/-- The name of a type. -/
def name : Kind → String
  | null => "null"
  | bool => "bool"
  | integer => "integer"
  | float => "float"
  | string => "string"
  | list => "list"

end Kind

/-- The type of a value. -/
def kind : Value → Kind
  | null => .null
  | bool _ => .bool
  | integer _ => .integer
  | float _ => .float
  | string _ => .string
  | list _ => .list

/-! ## Views -/

/-- The boolean that a value is. -/
def asBool : Value → Option Bool
  | bool b => some b
  | _ => none

/-- The integer that a value is. -/
def asInteger : Value → Option Int64
  | integer n => some n
  | _ => none

/-- The number of a value; an integer widens to the nearest double. -/
def asFloat : Value → Option Binary64
  | integer n => some (.ofInt n.toInt)
  | float x => some x
  | _ => none

/-- The string that a value is. -/
def asString : Value → Option String
  | string s => some s
  | _ => none

/-- The value is an integer or a float. -/
def isNumeric : Value → Bool
  | integer _ | float _ => true
  | _ => false

theorem asFloat_isSome (v : Value) : v.asFloat.isSome = v.isNumeric := by
  cases v <;> rfl

/-! ## Sameness -/

mutual

/-- Whether two values are the same, floats by their bits. -/
def decEq : (v w : Value) → Decidable (v = w)
  | null, w => by cases w <;> first | exact isTrue rfl | exact isFalse nofun
  | bool a, w =>
    match w with
    | bool b => decidable_of_iff (a = b) (by simp)
    | null | integer _ | float _ | string _ | list _ => isFalse nofun
  | integer a, w =>
    match w with
    | integer b => decidable_of_iff (a = b) (by simp)
    | null | bool _ | float _ | string _ | list _ => isFalse nofun
  | float a, w =>
    match w with
    | float b => decidable_of_iff (a = b) (by simp)
    | null | bool _ | integer _ | string _ | list _ => isFalse nofun
  | string a, w =>
    match w with
    | string b => decidable_of_iff (a = b) (by simp)
    | null | bool _ | integer _ | float _ | list _ => isFalse nofun
  | list a, w =>
    match w with
    | list b => @decidable_of_iff _ (a = b) (by simp) (decEqList a b)
    | null | bool _ | integer _ | float _ | string _ => isFalse nofun

def decEqList : (vs ws : List Value) → Decidable (vs = ws)
  | [], [] => isTrue rfl
  | [], _ :: _ => isFalse nofun
  | _ :: _, [] => isFalse nofun
  | v :: vs, w :: ws =>
    @decidable_of_iff _ (v = w ∧ vs = ws) (by simp)
      (@instDecidableAnd _ _ (decEq v w) (decEqList vs ws))

end

instance : DecidableEq Value := decEq

/-! ## Equality of the language -/

mutual

/-- Values of one type are equal if their contents are; floats compare as numbers, so a NaN is not
equal to itself and the two zeros are equal. -/
def equals : Value → Value → Bool
  | null, null => true
  | bool a, bool b => a == b
  | integer a, integer b => a == b
  | float a, float b => a.equals b
  | string a, string b => a == b
  | list a, list b => listEquals a b
  | _, _ => false

/-- Lists are equal if they have equal items in the same places. -/
def listEquals : List Value → List Value → Bool
  | [], [] => true
  | a :: as, b :: bs => a.equals b && listEquals as bs
  | _, _ => false

end

end Value

end StateMachines
