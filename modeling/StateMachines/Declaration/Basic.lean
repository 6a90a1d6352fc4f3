import StateMachines.Behavior.Action
import StateMachines.Behavior.Guard

/-! # Declarations

A system is declared as a list of machines. A machine may extend another one by name, and its
states use actions and guards by name or inline. Nothing is resolved here: a name may be declared
twice or not at all.
-/

namespace StateMachines

/-- A use of an action: by the name it has in the machine, or in place. -/
inductive ActionUse
  | named (name : String)
  | inline (action : Action)
deriving DecidableEq, Repr

/-- A use of a guard: by the name it has in the machine, or in place. -/
inductive GuardUse
  | named (name : String)
  | inline (guard : Guard)
deriving DecidableEq, Repr

/-- A transition to a target state when an event arrives. -/
structure TransitionDecl where
  event : String
  target : String
  guard : Option GuardUse
  actions : List ActionUse
deriving DecidableEq, Repr

/-- A state. A virtual one may be declared again by a machine that extends this one; an abstract one
has to be. -/
structure StateDecl where
  name : String
  isVirtual : Bool
  isAbstract : Bool
  entry : List ActionUse
  exit : List ActionUse
  transitions : List TransitionDecl
deriving DecidableEq, Repr

/-- A machine. An abstract one is only there to be extended. -/
structure MachineDecl where
  name : String
  states : List StateDecl
  localContext : Option (List Binding)
  persistentContext : Option (List Binding)
  guards : List Guard
  actions : List Action
  parent : Option String
  isAbstract : Bool
deriving DecidableEq, Repr

/-- A system of machines. -/
structure SystemDecl where
  name : String
  machines : List MachineDecl
deriving DecidableEq, Repr

/-- How a system is resolved. -/
structure Options where
  /-- How many ancestors a machine may have. -/
  maxInheritanceDepth : Nat
  /-- An abstract state may be declared again even if it is not virtual. -/
  abstractStatesOverridable : Bool
deriving DecidableEq, Repr

namespace Options

/-- At most sixty-four ancestors, and abstract states may be declared again. -/
def standard : Options := ⟨64, true⟩

instance : Inhabited Options := ⟨standard⟩

def withMaxInheritanceDepth (o : Options) (depth : Nat) : Options :=
  { o with maxInheritanceDepth := depth }

def withAbstractStatesOverridable (o : Options) (overridable : Bool) : Options :=
  { o with abstractStatesOverridable := overridable }

end Options

/-! ## Making declarations step by step -/

namespace TransitionDecl

/-- The transition of an event to a target, without guard and actions. -/
def ofEvent (event target : String) : TransitionDecl := ⟨event, target, none, []⟩

/-- The transition under a guard, which takes the place of an earlier one. -/
def guardedBy (t : TransitionDecl) (guard : GuardUse) : TransitionDecl :=
  { t with guard := some guard }

/-- The transition with one more action. -/
def andThen (t : TransitionDecl) (action : ActionUse) : TransitionDecl :=
  { t with actions := t.actions ++ [action] }

end TransitionDecl

namespace StateDecl

/-- The plain state that does nothing. -/
def ofName (name : String) : StateDecl := ⟨name, false, false, [], [], []⟩

def asVirtual (s : StateDecl) : StateDecl := { s with isVirtual := true }

def asAbstract (s : StateDecl) : StateDecl := { s with isAbstract := true }

/-- The state with one more transition. -/
def on (s : StateDecl) (t : TransitionDecl) : StateDecl :=
  { s with transitions := s.transitions ++ [t] }

/-- The state with one more action on entry. -/
def onEntry (s : StateDecl) (action : ActionUse) : StateDecl :=
  { s with entry := s.entry ++ [action] }

/-- The state with one more action on exit. -/
def onExit (s : StateDecl) (action : ActionUse) : StateDecl := { s with exit := s.exit ++ [action] }

end StateDecl

namespace MachineDecl

/-- The machine without contents or parent. -/
def ofName (name : String) : MachineDecl := ⟨name, [], none, none, [], [], none, false⟩

def extending (m : MachineDecl) (parent : String) : MachineDecl := { m with parent := some parent }

def asAbstract (m : MachineDecl) : MachineDecl := { m with isAbstract := true }

def withState (m : MachineDecl) (s : StateDecl) : MachineDecl :=
  { m with states := m.states ++ [s] }

def withAction (m : MachineDecl) (a : Action) : MachineDecl :=
  { m with actions := m.actions ++ [a] }

def withGuard (m : MachineDecl) (g : Guard) : MachineDecl :=
  { m with guards := m.guards ++ [g] }

/-- The machine with one more local variable. -/
def withLocal (m : MachineDecl) (name : String) (value : Expr) : MachineDecl :=
  { m with localContext := some (m.localContext.getD [] ++ [⟨name, value⟩]) }

/-- The machine with one more persistent variable. -/
def withPersistent (m : MachineDecl) (name : String) (value : Expr) : MachineDecl :=
  { m with persistentContext := some (m.persistentContext.getD [] ++ [⟨name, value⟩]) }

end MachineDecl

namespace SystemDecl

/-- The system without machines. -/
def ofName (name : String) : SystemDecl := ⟨name, []⟩

def withMachine (s : SystemDecl) (m : MachineDecl) : SystemDecl :=
  { s with machines := s.machines ++ [m] }

end SystemDecl

end StateMachines
