import StateMachines.Context.Basic

/-! # Extents

An extent is a stack of contexts, innermost first, over the disk that they may be kept on. A name
means the variable in the first context that has it, so an inner variable hides an outer one
and leaves it as it is. A new variable goes into the innermost context. A context that cannot answer
whether it has a name stops the search with its error.
-/

namespace StateMachines

/-- Contexts, innermost first, and the disk under them. -/
structure Extent where
  scopes : List Context
  disk : Disk

namespace Extent

/-- The extent of contexts in memory, innermost first. -/
def ofMemories (memories : List Memory) : Extent := ⟨memories.map .memory, default⟩

/-- Put a context inside all others. -/
def extend (x : Extent) (c : Context) : Extent := { x with scopes := c :: x.scopes }

/-- Put a context around all others. -/
def enclose (x : Extent) (c : Context) : Extent := { x with scopes := x.scopes ++ [c] }

/-- How many contexts there are. -/
def depth (x : Extent) : Nat := x.scopes.length

def isEmpty (x : Extent) : Bool := x.scopes.isEmpty

/-! ## Reading -/

/-- Read a name in the first context that does not answer that it is unknown. -/
def getIn (name : String) : List Context → Except ContextError Value
  | [] => .error (.unknownVariable name)
  | c :: rest =>
    match c.get name with
    | .ok value => .ok value
    | .error (.unknownVariable _) => getIn name rest
    | .error e => .error e

/-- Read the innermost variable of a name. -/
def get (x : Extent) (name : String) : Except ContextError Value := getIn name x.scopes

/-- The place of the first context that has a name, counted from the innermost. -/
def positionIn (name : String) : List Context → Except ContextError (Option Nat)
  | [] => .ok none
  | c :: rest =>
    match c.contains name with
    | .error e => .error e
    | .ok true => .ok (some 0)
    | .ok false => (positionIn name rest).map fun place => place.map (· + 1)

/-- The place of the innermost context that has a name. -/
def position (x : Extent) (name : String) : Except ContextError (Option Nat) :=
  positionIn name x.scopes

/-- Whether any context has a name. -/
def contains (x : Extent) (name : String) : Except ContextError Bool :=
  (x.position name).map Option.isSome

/-- The variables that are not hidden, from the innermost context outwards. -/
def visibleIn (seen : List String) : List Context → Except ContextError (List Variable)
  | [] => .ok []
  | c :: rest =>
    match c.list with
    | .error e => .error e
    | .ok vars =>
      let fresh := vars.filter fun v => v.name ∉ seen
      match visibleIn (fresh.map Variable.name ++ seen) rest with
      | .error e => .error e
      | .ok outer => .ok (fresh ++ outer)

/-- For each name the innermost variable. -/
def list (x : Extent) : Except ContextError (List Variable) := visibleIn [] x.scopes

/-! ## Changing -/

/-- Change the context at a place; where there is none, nothing changes. -/
def changeIn (ch : Change) : (place : Nat) → List Context → Disk →
    Except ContextError Unit × List Context × Disk
  | _, [], d => (.ok (), [], d)
  | 0, c :: rest, d =>
    match c.change ch d with
    | (answer, next, d) => (answer, next :: rest, d)
  | place + 1, c :: rest, d =>
    match changeIn ch place rest d with
    | (answer, next, d) => (answer, c :: next, d)

/-- Change the context at a place of the extent. -/
def changeAt (x : Extent) (place : Nat) (ch : Change) : Except ContextError Unit × Extent :=
  match changeIn ch place x.scopes x.disk with
  | (answer, scopes, disk) => (answer, ⟨scopes, disk⟩)

/-- Create a variable in the innermost context. -/
def create (x : Extent) (name : String) (value : Value) : Except ContextError Unit × Extent :=
  if x.isEmpty then (.error (.emptyExtent name), x) else x.changeAt 0 (.create name value)

/-- Change the innermost variable of a name. -/
def changeVisible (x : Extent) (name : String) (ch : Change) : Except ContextError Unit × Extent :=
  match x.position name with
  | .error e => (.error e, x)
  | .ok none => (.error (.unknownVariable name), x)
  | .ok (some place) => x.changeAt place ch

/-- Assign the innermost variable of a name. -/
def assign (x : Extent) (name : String) (value : Value) : Except ContextError Unit × Extent :=
  x.changeVisible name (.assign name value)

/-- Delete the innermost variable of a name. -/
def delete (x : Extent) (name : String) : Except ContextError Unit × Extent :=
  x.changeVisible name (.delete name)

/-- What setting a name did. -/
inductive Placement
  | assigned
  | created
deriving DecidableEq, Repr

/-- Answer a placement if a change succeeds. -/
def placed (placement : Placement) (changed : Except ContextError Unit × Extent) :
    Except ContextError Placement × Extent :=
  (changed.1.map fun _ => placement, changed.2)

/-- Assign a name where it is visible, else create it in the innermost context. -/
def set (x : Extent) (name : String) (value : Value) : Except ContextError Placement × Extent :=
  match x.position name with
  | .error e => (.error e, x)
  | .ok (some place) => placed .assigned (x.changeAt place (.assign name value))
  | .ok none => placed .created (x.create name value)

end Extent

end StateMachines
