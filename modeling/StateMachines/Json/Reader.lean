import StateMachines.Json.Basic
import StateMachines.Json.Token

/-! # Reading JSON trees

Tokens are read one at a time onto a stack of the arrays and objects that are still open, so that
a text of any depth is read.
-/

namespace StateMachines

namespace Json

/-- What may come next. -/
inductive Builder.Expects
  /-- A value, which is not the first of its array. -/
  | value
  /-- A value or the end of the array. -/
  | firstValue
  /-- A name or the end of the object. -/
  | firstName
  | name
  | colon
  /-- A comma or the end of what is open. -/
  | next
deriving DecidableEq, Repr

/-- An array or object that is open, with what it holds so far, last first. -/
inductive Builder.Frame
  | array (items : List Json)
  /-- The name is that of the member whose value is being read. -/
  | object (members : List (Option String × Json)) (name : Option String)

/-- What has been read: the open containers, innermost first, and the value once it is there. -/
structure Builder where
  frames : List Builder.Frame
  expects : Builder.Expects
  value : Option Json

namespace Builder

/-- Nothing has been read, and a value has to come. -/
def start : Builder := ⟨[], .value, none⟩

/-- A value is complete: it goes into the innermost open container. -/
def put (frames : List Frame) (j : Json) : Builder :=
  match frames with
  | [] => ⟨[], .next, some j⟩
  | .array items :: rest => ⟨.array (j :: items) :: rest, .next, none⟩
  | .object members name :: rest => ⟨.object ((name, j) :: members) none :: rest, .next, none⟩

/-- The innermost array ends. -/
def closeArray? : List Frame → Option Builder
  | .array items :: rest => some (put rest (.array items.reverse))
  | _ => none

/-- The innermost object ends. -/
def closeObject? : List Frame → Option Builder
  | .object members _ :: rest => some (put rest (.object members.reverse))
  | _ => none

/-- Read the first token of a value. -/
def startValue? (frames : List Frame) : Token → Option Builder
  | .null => some (put frames .null)
  | .bool b => some (put frames (.bool b))
  | .number n => some (put frames (.number n))
  | .text t => some (put frames (.text t))
  | .openArray => some ⟨.array [] :: frames, .firstValue, none⟩
  | .openObject => some ⟨.object [] none :: frames, .firstName, none⟩
  | _ => none

/-- The name of the next member is read. -/
def startMember? (t : Option String) : List Frame → Option Builder
  | .object members _ :: rest => some ⟨.object members t :: rest, .colon, none⟩
  | _ => none

/-- A comma in the innermost container. -/
def comma? : List Frame → Option Builder
  | .array items :: rest => some ⟨.array items :: rest, .value, none⟩
  | .object members name :: rest => some ⟨.object members name :: rest, .name, none⟩
  | [] => none

/-- Read a token. -/
def step (b : Builder) (token : Token) : Option Builder :=
  match b.expects, token with
  | .firstValue, .closeArray => closeArray? b.frames
  | .value, _ | .firstValue, _ => startValue? b.frames token
  | .firstName, .closeObject => closeObject? b.frames
  | .name, .text t | .firstName, .text t => startMember? t b.frames
  | .colon, .colon => some ⟨b.frames, .value, none⟩
  | .next, .comma => comma? b.frames
  | .next, .closeArray => closeArray? b.frames
  | .next, .closeObject => closeObject? b.frames
  | _, _ => none

/-- Read tokens. -/
def run (b : Builder) (tokens : List Token) : Option Builder := tokens.foldlM step b

theorem run_append (b : Builder) (front back : List Token) :
    b.run (front ++ back) = (b.run front).bind fun c => c.run back := by
  simp [run]

end Builder

/-- The tree of a text. -/
def ofChars? (cs : List Char) : Option Json := do
  let tokens ← tokens? cs
  let built ← Builder.start.run tokens
  built.value

/-- The tree of a text. -/
def ofString? (s : String) : Option Json := ofChars? s.toList

@[simp] theorem ofString?_ofList (cs : List Char) : ofString? (.ofList cs) = ofChars? cs := by
  simp [ofString?]

end Json

end StateMachines
