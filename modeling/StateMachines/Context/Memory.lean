import StateMachines.Context.Error
import StateMachines.Table

/-! # Contexts in memory

A context holds the variables of one scope in the order in which they were created. A name is
created once and has to be there to be assigned or deleted.
-/

namespace StateMachines

/-- The variables of one scope. -/
structure Memory where
  scope : Scope
  vars : Table Value
deriving DecidableEq

/-- A change of the variables of a context. -/
inductive Change
  | create (name : String) (value : Value)
  | assign (name : String) (value : Value)
  | delete (name : String)
deriving DecidableEq, Repr

namespace Memory

/-- The context without variables. -/
def empty (scope : Scope) : Memory := ⟨scope, .empty⟩

/-- A variable of that name is there. -/
def contains (m : Memory) (name : String) : Bool := m.vars.contains name

/-- The value of a variable; an unknown name is an error. -/
def get (m : Memory) (name : String) : Except ContextError Value :=
  match m.vars.get? name with
  | some value => .ok value
  | none => .error (.unknownVariable name)

/-- A new variable, as the youngest; a name that is there is an error. -/
def create (m : Memory) (name : String) (value : Value) : Except ContextError Memory :=
  if m.contains name then .error (.variableExists name m.scope)
  else .ok { m with vars := m.vars.set name value }

/-- A new value for a variable, in its place; an unknown name is an error. -/
def assign (m : Memory) (name : String) (value : Value) : Except ContextError Memory :=
  if m.contains name then .ok { m with vars := m.vars.set name value }
  else .error (.unknownVariable name)

/-- The others stay in order; an unknown name is an error. -/
def delete (m : Memory) (name : String) : Except ContextError Memory :=
  if m.contains name then .ok { m with vars := m.vars.erase name }
  else .error (.unknownVariable name)

/-- Make a change. -/
def change (m : Memory) : Change → Except ContextError Memory
  | .create name value => m.create name value
  | .assign name value => m.assign name value
  | .delete name => m.delete name

/-- The variables, oldest first. -/
def list (m : Memory) : List Variable :=
  m.vars.entries.map fun (name, value) => ⟨name, value, m.scope⟩

/-- Create the given variables one after the other. -/
def createAll (m : Memory) : List Variable → Except ContextError Memory
  | [] => .ok m
  | v :: rest =>
    match m.create v.name v.value with
    | .ok next => next.createAll rest
    | .error e => .error e

/-- The context of some variables; a repeated name is an error. -/
def ofVariables (scope : Scope) (vars : List Variable) : Except ContextError Memory :=
  (empty scope).createAll vars

/-- Rebuild the context of a snapshot. -/
def ofSnapshot (s : Snapshot) : Except ContextError Memory := ofVariables s.scope s.vars

/-- A snapshot of the context. -/
def snapshot (m : Memory) (stamp : Stamp) : Snapshot := ⟨snapshotVersion, stamp, m.scope, m.list⟩

/-! ## What a change does -/

/-- A name can be read exactly if it is there. -/
theorem get_eq_ok_iff {m : Memory} {name : String} {value : Value} :
    m.get name = .ok value ↔ m.vars.get? name = some value := by
  unfold get
  cases m.vars.get? name <;> simp

/-- A change keeps the scope. -/
theorem scope_of_change {m next : Memory} {c : Change} (changed : m.change c = .ok next) :
    next.scope = m.scope := by
  cases c <;> simp only [change, create, assign, delete] at changed <;>
    split at changed <;> first | contradiction | (injection changed with same; rw [← same])

end Memory

end StateMachines
