import StateMachines.Json.Basic
import StateMachines.Json.Escape

/-! # Writing JSON trees

The compact form has no blanks. The indented form has one member or item a line, two spaces deeper
than its container; an empty container takes no lines.
-/

namespace StateMachines

namespace Json

/-- The characters of a value without parts. A string that spells no text is written empty. -/
def leafChars : Json → List Char
  | bool b => (if b then "true" else "false").toList
  | number n => n.chars
  | text t => stringChars (t.getD "")
  | _ => ['n', 'u', 'l', 'l']

mutual

/-- The compact characters of a tree. -/
def compactChars : Json → List Char
  | array items => '[' :: compactItems true items
  | object members => '\x7b' :: compactMembers true members
  | leaf => leafChars leaf

/-- The items of an array and its closing bracket. -/
def compactItems (first : Bool) : List Json → List Char
  | [] => [']']
  | item :: rest =>
    (if first then [] else [',']) ++ item.compactChars ++ compactItems false rest

/-- The members of an object and its closing brace. -/
def compactMembers (first : Bool) : List (Option String × Json) → List Char
  | [] => ['\x7d']
  | (name, value) :: rest =>
    (if first then [] else [',']) ++ stringChars (name.getD "") ++ ':' :: value.compactChars
      ++ compactMembers false rest

end

/-- The start of a line at a depth. -/
def newline (depth : Nat) : List Char := '\n' :: List.replicate (2 * depth) ' '

mutual

/-- The indented characters of a tree that stands at a depth. -/
def indentedChars (depth : Nat) : Json → List Char
  | array items => '[' :: indentedItems depth true items
  | object members => '\x7b' :: indentedMembers depth true members
  | leaf => leafChars leaf

/-- The items of an array and its closing bracket. -/
def indentedItems (depth : Nat) (first : Bool) : List Json → List Char
  | [] => (if first then [] else newline depth) ++ [']']
  | item :: rest =>
    (if first then [] else [',']) ++ newline (depth + 1) ++ item.indentedChars (depth + 1)
      ++ indentedItems depth false rest

/-- The members of an object and its closing brace. -/
def indentedMembers (depth : Nat) (first : Bool) : List (Option String × Json) → List Char
  | [] => (if first then [] else newline depth) ++ ['\x7d']
  | (name, value) :: rest =>
    (if first then [] else [',']) ++ newline (depth + 1) ++ stringChars (name.getD "")
      ++ ':' :: ' ' :: value.indentedChars (depth + 1) ++ indentedMembers depth false rest

end

/-- The compact text of a tree. -/
def compact (j : Json) : String := .ofList j.compactChars

end Json

end StateMachines
