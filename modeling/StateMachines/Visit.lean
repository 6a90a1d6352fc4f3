import StateMachines.System

/-! # Visiting a system

A visit meets the parts of a system in a fixed order, each part before what is in it: the states
of a machine before its named actions and guards, the guard of a transition before its actions. What
happens at a part is up to the visitor. Where a part has parts, the visitor is handed the walk over
them, and may leave it. Where a visitor says nothing, it takes the walk and does nothing else.
-/

namespace StateMachines

/-- A part of a system. -/
inductive Part
  | system (s : System)
  | machine (m : Machine)
  | state (s : State)
  | transition (t : Transition)
  | action (a : Action)
  | guard (g : Guard)

/-- The levels of parts that have parts. -/
inductive Level
  | system
  | machine
  | state
  | transition
deriving DecidableEq, Repr

/-! ## Visitors -/

/-- What to do at each kind of part to a state of the visitor's own, given the walk over what is in
the part. -/
structure Visitor (σ : Type) where
  onSystem : System → (walk : σ → σ) → σ → σ := fun _ walk => walk
  onMachine : Machine → (walk : σ → σ) → σ → σ := fun _ walk => walk
  onState : State → (walk : σ → σ) → σ → σ := fun _ walk => walk
  onTransition : Transition → (walk : σ → σ) → σ → σ := fun _ walk => walk
  onAction : Action → σ → σ := fun _ => id
  onGuard : Guard → σ → σ := fun _ => id

section Walking

variable {σ : Type}

/-- Visit some things one after the other. -/
def visitEach {α : Type} (visit : α → σ → σ) (things : List α) (seen : σ) : σ :=
  things.foldl (fun seen thing => visit thing seen) seen

/-- The guard of a transition, then its actions. -/
def Transition.walk (v : Visitor σ) (t : Transition) (seen : σ) : σ :=
  visitEach v.onAction t.actions (visitEach v.onGuard t.guard.toList seen)

/-- Visit a transition. -/
def Transition.accept (v : Visitor σ) (t : Transition) : σ → σ := v.onTransition t (t.walk v)

/-- The actions on entry, the transitions, then the actions on exit. -/
def State.walk (v : Visitor σ) (s : State) (seen : σ) : σ :=
  visitEach v.onAction s.exit
    (visitEach (Transition.accept v) s.transitions (visitEach v.onAction s.entry seen))

/-- Visit a state. -/
def State.accept (v : Visitor σ) (s : State) : σ → σ := v.onState s (s.walk v)

/-- The states of a machine, then its named actions and its named guards. -/
def Machine.walk (v : Visitor σ) (m : Machine) (seen : σ) : σ :=
  visitEach v.onGuard m.guards.values
    (visitEach v.onAction m.actions.values (visitEach (State.accept v) m.states.values seen))

/-- Visit a machine. -/
def Machine.accept (v : Visitor σ) (m : Machine) : σ → σ := v.onMachine m (m.walk v)

/-- The machines of a system. -/
def System.walk (v : Visitor σ) (s : System) (seen : σ) : σ :=
  visitEach (Machine.accept v) s.machines.values seen

/-- Visit a system. -/
def System.accept (v : Visitor σ) (s : System) : σ → σ := v.onSystem s (s.walk v)

end Walking

/-! ## What is met -/

namespace Visitor

/-- Do the same at every part, and leave the walk below the parts of some levels. -/
def observing {σ : Type} (note : Part → σ → σ) (stop : Level → Bool) : Visitor σ :=
  let below (level : Level) (walk : σ → σ) : σ → σ := if stop level then id else walk
  { onSystem := fun s walk seen => below .system walk (note (.system s) seen)
    onMachine := fun m walk seen => below .machine walk (note (.machine m) seen)
    onState := fun s walk seen => below .state walk (note (.state s) seen)
    onTransition := fun t walk seen => below .transition walk (note (.transition t) seen)
    onAction := fun a => note (.action a)
    onGuard := fun g => note (.guard g) }

/-- Keep every part that is met, in order. -/
def recording (stop : Level → Bool) : Visitor (List Part) :=
  observing (fun part met => met ++ [part]) stop

end Visitor

/-- The parts met from a transition on. -/
def Transition.visit (stop : Level → Bool) (t : Transition) : List Part :=
  t.accept (.recording stop) []

/-- The parts met from a state on. -/
def State.visit (stop : Level → Bool) (s : State) : List Part := s.accept (.recording stop) []

/-- The parts met from a machine on. -/
def Machine.visit (stop : Level → Bool) (m : Machine) : List Part := m.accept (.recording stop) []

/-- The parts met from a system on. -/
def System.visit (stop : Level → Bool) (s : System) : List Part := s.accept (.recording stop) []

/-- No level is stopped at. -/
def visitAll : Level → Bool := fun _ => false

namespace Part

/-- The actions among some parts. -/
def actions (parts : List Part) : List Action :=
  parts.filterMap fun
    | action a => some a
    | _ => none

/-- The guards among some parts. -/
def guards (parts : List Part) : List Guard :=
  parts.filterMap fun
    | guard g => some g
    | _ => none

end Part

end StateMachines
