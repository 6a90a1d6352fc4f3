import StateMachines.Value.Basic

/-! # Scopes and variables

Every context belongs to a scope, and a variable that is read from a context carries its scope.
-/

namespace StateMachines

/-- Where a variable lives. -/
inductive Scope
  /-- Data of the event that is being handled. -/
  | eventData
  /-- Variables of one running machine. -/
  | machineLocal
  /-- Variables that all running machines share. -/
  | persistent
  /-- Constants of the process. -/
  | static
deriving DecidableEq, Repr, Inhabited

namespace Scope

/-- The scope in a sentence. -/
def text : Scope → String
  | eventData => "event data"
  | machineLocal => "local"
  | persistent => "persistent"
  | static => "static"

/-- The scope as data. -/
def name : Scope → String
  | eventData => "event_data"
  | machineLocal => "local"
  | persistent => "persistent"
  | static => "static"

/-- All scopes, in the order of their numbers. -/
def all : List Scope := [eventData, machineLocal, persistent, static]

/-- The scope of a name. -/
def ofName? (name : String) : Option Scope := all.find? fun scope => scope.name == name

@[simp] theorem ofName?_name (scope : Scope) : ofName? scope.name = some scope := by
  cases scope <;> decide

end Scope

/-- A variable with the scope it was read from. -/
structure Variable where
  name : String
  value : Value
  scope : Scope
deriving DecidableEq, Repr, Inhabited

namespace Variable

/-- Equality of the language, see `Value.equals`. -/
def equals (a b : Variable) : Bool :=
  a.name == b.name && a.value.equals b.value && a.scope == b.scope

end Variable

end StateMachines
