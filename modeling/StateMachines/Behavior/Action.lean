import StateMachines.Behavior.Event
import StateMachines.Expr.Evaluation

/-! # Actions

An action has one effect: it sets, creates or deletes a variable, or raises an event. Its
expressions are evaluated before any variable is touched. An action without a name is inline.
-/

namespace StateMachines

/-- A name with the expression that gives its value. -/
structure Binding where
  name : String
  value : Expr
deriving DecidableEq, Repr, Inhabited

/-- What an action does. -/
inductive Effect
  /-- Assign a variable where it is visible, else create it in the innermost context. -/
  | assign (name : String) (value : Expr)
  /-- Create a variable in the innermost context. -/
  | create (name : String) (value : Expr)
  /-- Delete the innermost variable of a name. -/
  | delete (name : String)
  /-- Raise an event with data. -/
  | raise (event : String) (data : List Binding)
deriving DecidableEq, Repr

/-- An effect, perhaps with a name by which it can be used. -/
structure Action where
  name : Option String
  effect : Effect
deriving DecidableEq, Repr

/-- What an action has done. -/
inductive Outcome
  | assigned (name : String) (value : Value)
  | created (name : String) (value : Value)
  | deleted (name : String)
  | raised (event : Event)
deriving DecidableEq, Repr

/-- The first name that stands a second time in a list. -/
def firstRepeated? (seen : List String) : List String → Option String
  | [] => none
  | name :: rest => if name ∈ seen then some name else firstRepeated? (name :: seen) rest

namespace Action

/-! ## Making actions -/

/-- The inline action that assigns a variable or creates it. -/
def assign (name : String) (value : Expr) : Action := ⟨none, .assign name value⟩

/-- The inline action that creates a variable. -/
def create (name : String) (value : Expr) : Action := ⟨none, .create name value⟩

/-- The inline action that deletes a variable. -/
def delete (name : String) : Action := ⟨none, .delete name⟩

/-- The inline action that raises an event without data. -/
def raise (event : String) : Action := ⟨none, .raise event []⟩

/-- The action under a name. -/
def named (a : Action) (name : String) : Action := { a with name := some name }

/-- Add a field to the data of an action that raises an event; other actions carry none. -/
def withData (a : Action) (name : String) (value : Expr) : Action :=
  match a.effect with
  | .raise event data => { a with effect := .raise event (data ++ [⟨name, value⟩]) }
  | _ => a

/-! ## Reading actions -/

/-- An action without a name can only be used where it stands. -/
def isInline (a : Action) : Bool := a.name.isNone

/-- The event that the action raises. -/
def raisedEvent? (a : Action) : Option String :=
  match a.effect with
  | .raise event _ => some event
  | _ => none

/-! ## Executing actions -/

/-- The values of bindings, in order. -/
def evaluateData (x : Extent) (data : List Binding) : Except EvaluationError (List Variable) :=
  data.mapM fun field =>
    (field.value.evaluate x).map fun value => Variable.mk field.name value .eventData

/-- The event that is raised with some data; two fields of one name are an error before anything is
evaluated. -/
def raiseEvent (x : Extent) (event : String) (data : List Binding) :
    Except EvaluationError Event :=
  match firstRepeated? [] (data.map Binding.name) with
  | some name => .error (.context (.variableExists name .eventData))
  | none => (evaluateData x data).map fun vars => ⟨event, vars⟩

/-- What is answered after a change of the extent. -/
def answer {α : Type} (outcome : α → Outcome) (changed : Except ContextError α × Extent) :
    Except EvaluationError Outcome × Extent :=
  ((changed.1.map outcome).mapError .context, changed.2)

/-- Execute the action. -/
def execute (a : Action) (x : Extent) : Except EvaluationError Outcome × Extent :=
  match a.effect with
  | .assign name value =>
    match value.evaluate x with
    | .error e => (.error e, x)
    | .ok v =>
      answer (fun
        | .assigned => .assigned name v
        | .created => .created name v) (x.set name v)
  | .create name value =>
    match value.evaluate x with
    | .error e => (.error e, x)
    | .ok v => answer (fun _ => .created name v) (x.create name v)
  | .delete name => answer (fun _ => .deleted name) (x.delete name)
  | .raise event data => ((raiseEvent x event data).map .raised, x)

end Action

end StateMachines
