import StateMachines.Behavior.Action
import StateMachines.Behavior.Guard
import StateMachines.Table

/-! # Machines

A resolved machine is a graph: its states are joined by transitions, and every action and guard is
in its place. Events that a machine handles or raises are read off the graph.
-/

namespace StateMachines

/-- An edge of the graph, taken when its event arrives and its guard lets pass. -/
structure Transition where
  event : String
  target : String
  guard : Option Guard
  actions : List Action
deriving DecidableEq, Repr

namespace Transition

/-- Whether the transition fires on an event; without a guard nothing but the event counts. -/
def canFire (t : Transition) (event : String) (x : Extent) : Except EvaluationError Bool :=
  if event ≠ t.event then .ok false
  else
    match t.guard with
    | none => .ok true
    | some guard => guard.evaluate x

end Transition

/-- A vertex of the graph, with the machine whose declaration of it is in force. -/
structure State where
  name : String
  isVirtual : Bool
  isAbstract : Bool
  declaredIn : String
  entry : List Action
  exit : List Action
  transitions : List Transition
deriving DecidableEq, Repr

namespace State

/-- The transitions that an event may take, in order. -/
def transitionsOn (s : State) (event : String) : List Transition :=
  s.transitions.filter fun t => t.event == event

/-- All actions of the state: on entry, in transitions, on exit. -/
def actions (s : State) : List Action :=
  s.entry ++ s.transitions.flatMap Transition.actions ++ s.exit

end State

/-- A machine in which all names are resolved. -/
structure Machine where
  name : String
  isAbstract : Bool
  /-- The names of the ancestors, nearest first. -/
  ancestors : List String
  states : Table State
  actions : Table Action
  guards : Table Guard
  localContext : Table Expr
  persistentContext : Table Expr
deriving DecidableEq

/-- A name that is not there. -/
inductive LookupError
  | unknownMachine (name : String)
  | unknownState (machine state : String)
  | unknownAction (machine action : String)
  | unknownGuard (machine guard : String)
deriving DecidableEq, Repr

namespace LookupError

/-- The error as a sentence. -/
def message : LookupError → String
  | unknownMachine name => s!"State machine '{name}' not found"
  | unknownState machine state => s!"Unknown state '{state}' in state machine '{machine}'"
  | unknownAction machine action => s!"Unknown action '{action}' in state machine '{machine}'"
  | unknownGuard machine guard => s!"Unknown guard '{guard}' in state machine '{machine}'"

end LookupError

namespace Machine

/-- The parent. -/
def parent? (m : Machine) : Option String := m.ancestors.head?

/-! ## Lookups -/

/-- The state of a name. -/
def state (m : Machine) (name : String) : Except LookupError State :=
  match m.states.get? name with
  | some s => .ok s
  | none => .error (.unknownState m.name name)

/-- The named action of a name. -/
def action (m : Machine) (name : String) : Except LookupError Action :=
  match m.actions.get? name with
  | some a => .ok a
  | none => .error (.unknownAction m.name name)

/-- The named guard of a name. -/
def guard (m : Machine) (name : String) : Except LookupError Guard :=
  match m.guards.get? name with
  | some g => .ok g
  | none => .error (.unknownGuard m.name name)

/-! ## The graph -/

/-- Every transition with the state that it leaves. -/
def edges (m : Machine) : List (State × Transition) :=
  m.states.values.flatMap fun s => s.transitions.map fun t => (s, t)

/-- A state of the name is listed. -/
def isListed (sources : List State) (name : String) : Bool :=
  sources.any fun s => s.name == name

/-- Add the state that an edge leaves if the edge leads to a name, unless a state of its own name is
listed. -/
def addSource (name : String) (sources : List State) : State × Transition → List State
  | (s, t) => if t.target == name && !isListed sources s.name then sources ++ [s] else sources

/-- The states with a transition into a state. -/
def predecessors (m : Machine) (name : String) : Except LookupError (List State) :=
  (m.state name).map fun _ => m.edges.foldl (addSource name) []

/-! ## Events -/

/-- The events that transitions wait for, each once, in order of first occurrence. -/
def inputEvents (m : Machine) : List String := (m.edges.map fun (_, t) => t.event).eraseDups

/-- The events that the actions of states raise, each once, in order of first occurrence. -/
def outputEvents (m : Machine) : List String :=
  ((m.states.values.flatMap State.actions).filterMap Action.raisedEvent?).eraseDups

/-- Some transition waits for the event. -/
def handles (m : Machine) (event : String) : Bool := m.inputEvents.contains event

/-! ## Contexts -/

/-- Evaluate initial values one after the other, each in the context of those before it. -/
def declareAll (m : Memory) : List (String × Expr) → Except EvaluationError Memory
  | [] => .ok m
  | (name, initial) :: rest => do
    let value ← initial.evaluate (.ofMemories [m])
    let next ← (m.create name value).mapError .context
    declareAll next rest

/-- A new context of the local variables. -/
def createLocal (m : Machine) : Except EvaluationError Memory :=
  declareAll (.empty .machineLocal) m.localContext.entries

/-- A new context of the persistent variables. -/
def createPersistent (m : Machine) : Except EvaluationError Memory :=
  declareAll (.empty .persistent) m.persistentContext.entries

end Machine

end StateMachines
