import StateMachines.Number.Numeral

/-! # JSON trees

A tree holds what a JSON text says before anything is decided about it: numbers as they are
written, members in order with their repetitions, and strings whose escapes may fail to spell a
text. A reader of trees can then be strict about the parts it looks at and blind to the others.
-/

namespace StateMachines

/-- A JSON value. A string is absent where its escapes leave half of a surrogate pair. -/
inductive Json
  | null
  | bool (b : Bool)
  | number (n : Numeral)
  | text (t : Option String)
  | array (items : List Json)
  | object (members : List (Option String × Json))
deriving Repr, Inhabited

namespace Json

/-- The string that says `s`. -/
def ofText (s : String) : Json := text (some s)

/-- The object with the given members. -/
def ofMembers (members : List (String × Json)) : Json :=
  object (members.map fun (name, value) => (some name, value))

/-- The object with one member. -/
def tagged (tag : String) (payload : Json) : Json := object [(some tag, payload)]

end Json

end StateMachines
