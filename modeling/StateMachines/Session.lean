import StateMachines.System

/-! # Sessions

A session runs machines of a system. A running machine is in a state and has contexts for its
local and its persistent variables. An event takes the first transition whose guard lets pass: the
state is left, the transition's actions are executed, and the target is entered. Actions are
executed until one fails; what the earlier ones did stays.
-/

namespace StateMachines

/-- What a list of actions has done, up to the first failure. -/
structure Log where
  outcomes : List Outcome
  failure : Option EvaluationError
deriving DecidableEq

namespace Log

/-- Nothing has been done. -/
def empty : Log := ⟨[], none⟩

/-- A log after another one that did not fail. -/
def append (first second : Log) : Log := ⟨first.outcomes ++ second.outcomes, second.failure⟩

end Log

/-- Execute actions until one fails. -/
def executeAll : List Action → Extent → Log × Extent
  | [], x => (.empty, x)
  | a :: rest, x =>
    match a.execute x with
    | (.error e, x) => (⟨[], some e⟩, x)
    | (.ok outcome, x) =>
      match executeAll rest x with
      | (log, x) => (⟨outcome :: log.outcomes, log.failure⟩, x)

/-- Two lists of actions run one after the other, the second only if nothing failed in the first. -/
theorem executeAll_append (front back : List Action) (x : Extent) :
    executeAll (front ++ back) x =
      match executeAll front x with
      | (log, next) =>
        if log.failure.isSome then (log, next)
        else (log.append (executeAll back next).1, (executeAll back next).2) := by
  induction front generalizing x with
  | nil => simp [executeAll, Log.empty, Log.append]
  | cons a rest ih =>
    rw [List.cons_append, executeAll, executeAll]
    split
    · simp
    · rename_i next _
      rw [ih next]
      cases failed : (executeAll rest next).1.failure <;> simp [failed, Log.append]

/-- A machine that runs. -/
structure Running where
  machine : Machine
  state : State
  locals : Memory
  persistent : Memory

/-- Why a machine cannot be started. -/
inductive StartError
  | lookup (e : LookupError)
  | evaluation (e : EvaluationError)
deriving DecidableEq, Repr

/-- What the handling of an event has done. -/
structure Reaction where
  /-- The answers of the transitions that were tried. -/
  checks : List (Except EvaluationError Bool)
  log : Log
  /-- The data of the event afterwards. -/
  data : Memory

namespace Running

/-- The variables of a running machine, local ones innermost. -/
def memories (r : Running) : List Memory := [r.locals, r.persistent]

/-- The running machine after its variables have changed. -/
def withContents (r : Running) (contents : List Memory) : Running :=
  match contents with
  | [locals, persistent] => { r with locals := locals, persistent := persistent }
  | _ => r

/-- Start a machine in a state and enter it; a failing action does not undo the start. -/
def start (s : System) (machine state : String) : Except StartError (Running × Log) := do
  let machine ← (s.machine machine).mapError .lookup
  let state ← (machine.state state).mapError .lookup
  let locals ← machine.createLocal.mapError .evaluation
  let persistent ← machine.createPersistent.mapError .evaluation
  let (log, x) := executeAll state.entry (.ofMemories [locals, persistent])
  let running := Running.mk machine state locals persistent
  .ok (running.withContents (x.scopes.map Context.contents), log)

/-- Try transitions in order: the answers up to the first that is not `false`, and the transition
if that is `true`. -/
def choose (event : String) (x : Extent) :
    List Transition → List (Except EvaluationError Bool) × Option Transition
  | [] => ([], none)
  | t :: rest =>
    match t.canFire event x with
    | .error e => ([.error e], none)
    | .ok true => ([.ok true], some t)
    | .ok false =>
      match choose event x rest with
      | (checks, chosen) => (.ok false :: checks, chosen)

/-- Leave a state by a transition; the target is entered if nothing failed before. -/
def take (r : Running) (t : Transition) (x : Extent) : State × Log × Extent :=
  match executeAll (r.state.exit ++ t.actions) x with
  | (log, x) =>
    match log.failure, r.machine.states.get? t.target with
    | none, some target =>
      match executeAll target.entry x with
      | (entered, x) => (target, log.append entered, x)
    | _, _ => (r.state, log, x)

/-- The running machine and the event's data after a state and an extent have been reached. -/
def settle (r : Running) (state : State) (data : Memory) (x : Extent) : Running × Memory :=
  match x.scopes.map Context.contents with
  | data :: contents => ({ r with state := state }.withContents contents, data)
  | [] => ({ r with state := state }, data)

/-- Take the transition that is chosen for an event, if one is: the answers of the transitions that
were tried, the state that is reached, and what has been executed. -/
def move (r : Running) (event : String) (x : Extent) :
    List (Except EvaluationError Bool) × State × Log × Extent :=
  match choose event x (r.state.transitionsOn event) with
  | (checks, some t) => (checks, r.take t x)
  | (checks, none) => (checks, r.state, .empty, x)

/-- Handle an event; its data is the innermost context. -/
def react (r : Running) (event : Event) : Except ContextError (Running × Reaction) := do
  let data ← event.dataContext
  let (checks, state, log, x) := r.move event.name (.ofMemories (data :: r.memories))
  let (next, data) := r.settle state data x
  .ok (next, ⟨checks, log, data⟩)

end Running

end StateMachines
