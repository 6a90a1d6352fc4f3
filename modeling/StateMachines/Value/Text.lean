import StateMachines.Number.Shortest
import StateMachines.Text.Quoted
import StateMachines.Value.Basic

/-! # Values as text

The text of a value for people: numbers in plain decimals, strings quoted, lists in brackets.
-/

namespace StateMachines

namespace Value

/-- Floats are written without an exponent and without a point that nothing follows; a half goes
up. -/
def floatStyle : FloatStyle := ⟨.up, none, []⟩

/-- The characters of a float; a NaN has no sign. -/
def floatChars (x : Binary64) : List Char :=
  if x.isNaN then ['N', 'a', 'N']
  else if x.isInfinite then (if x.negative then ['-'] else []) ++ ['i', 'n', 'f']
  else (x.numeral floatStyle).chars

mutual

/-- The characters of a value. -/
def chars : Value → List Char
  | null => ['n', 'u', 'l', 'l']
  | bool b => (if b then "true" else "false").toList
  | integer n => (Numeral.ofInt n.toInt).chars
  | float x => floatChars x
  | string s => Text.quoted s
  | list items => '[' :: listChars items

/-- The items of a list, separated by commas, and the closing bracket. -/
def listChars : List Value → List Char
  | [] => [']']
  | [item] => item.chars ++ [']']
  | item :: rest => item.chars ++ [',', ' '] ++ listChars rest

end

/-- The text of a value. -/
def text (v : Value) : String := .ofList v.chars

end Value

end StateMachines
