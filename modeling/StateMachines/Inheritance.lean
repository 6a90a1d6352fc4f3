import StateMachines.Declaration.Basic
import StateMachines.Table
import StateMachines.Violation

/-! # Inheritance

A machine inherits from its ancestors, the machines that are met on the way along the parents. Its
lineage, from the root down to itself, is folded into tables: a name that is declared again
replaces the inherited entry in its place, and a new name goes to the end. A state may be declared
again only where the one it replaces allows it; otherwise the declaration is refused and the
earlier one stays.
-/

namespace StateMachines

namespace SystemDecl

/-- Add a machine to those of a list, unless its name is there. -/
def addMachine (machines : Table MachineDecl) (m : MachineDecl) : Table MachineDecl :=
  if machines.contains m.name then machines else machines.set m.name m

/-- The machines by name; of two with one name the first counts. -/
def machineTable (s : SystemDecl) : Table MachineDecl := s.machines.foldl addMachine .empty

end SystemDecl

/-! ## Ancestors -/

/-- The machines on the way along the parents of `current`, nearest first. Every name has to be
declared, must not have been met, and has to be within as many steps as are left. -/
def ancestorsFrom (machines : Table MachineDecl) (start : String) :
    (left : Nat) → (met : List String) → (current : MachineDecl) →
    Except Violation (List MachineDecl)
  | left, met, current =>
    match current.parent with
    | none => .ok []
    | some parent =>
      match machines.get? parent with
      | none => .error ⟨.invalidParent, start, some parent⟩
      | some next =>
        if parent ∈ met then .error ⟨.invalidParent, start, some parent⟩
        else
          match left with
          | 0 => .error ⟨.invalidParent, start, some parent⟩
          | left + 1 =>
            match ancestorsFrom machines start left (parent :: met) next with
            | .error v => .error v
            | .ok rest => .ok (next :: rest)

/-- The ancestors of a machine, nearest first. -/
def MachineDecl.ancestors (m : MachineDecl) (machines : Table MachineDecl) (o : Options) :
    Except Violation (List MachineDecl) :=
  ancestorsFrom machines m.name o.maxInheritanceDepth [m.name] m

/-! ## States -/

/-- A state and the machine whose declaration it is. -/
structure PlacedState where
  decl : StateDecl
  declaredIn : String
deriving DecidableEq, Repr

/-- Whether a state may be declared again further down. -/
def StateDecl.isOverridable (s : StateDecl) (o : Options) : Bool :=
  s.isVirtual || (o.abstractStatesOverridable && s.isAbstract)

/-- The states of a lineage so far, and the declarations that were refused, oldest first. -/
structure MergedStates where
  states : Table PlacedState
  refused : List PlacedState
deriving DecidableEq

namespace MergedStates

/-- Before the first declaration. -/
def empty : MergedStates := ⟨.empty, []⟩

/-- Take in a declaration, or refuse it. -/
def add (o : Options) (merged : MergedStates) (p : PlacedState) : MergedStates :=
  match merged.states.get? p.decl.name with
  | none => { merged with states := merged.states.set p.decl.name p }
  | some earlier =>
    if earlier.decl.isOverridable o then
      { merged with states := merged.states.set p.decl.name p }
    else { merged with refused := merged.refused ++ [p] }

end MergedStates

/-- The states that a machine declares. -/
def MachineDecl.placedStates (m : MachineDecl) : List PlacedState :=
  m.states.map fun s => ⟨s, m.name⟩

/-- The states of a lineage, root first. -/
def mergeStates (o : Options) (lineage : List MachineDecl) : MergedStates :=
  (lineage.flatMap MachineDecl.placedStates).foldl (MergedStates.add o) .empty

/-! ## The other tables -/

namespace MachineDecl

/-- The actions that have a name. -/
def namedActions (m : MachineDecl) : List (String × Action) :=
  m.actions.filterMap fun a => a.name.map fun name => (name, a)

/-- The guards that have a name. -/
def namedGuards (m : MachineDecl) : List (String × Guard) :=
  m.guards.filterMap fun g => g.name.map fun name => (name, g)

/-- The local variables and their initial values. -/
def localBindings (m : MachineDecl) : List (String × Expr) :=
  (m.localContext.getD []).map fun b => (b.name, b.value)

/-- The persistent variables and their initial values. -/
def persistentBindings (m : MachineDecl) : List (String × Expr) :=
  (m.persistentContext.getD []).map fun b => (b.name, b.value)

end MachineDecl

/-- A machine with what it inherits, before it is verified. -/
structure Candidate where
  decl : MachineDecl
  /-- The names of the ancestors, nearest first. -/
  ancestors : List String
  states : Table PlacedState
  actions : Table Action
  guards : Table Guard
  localContext : Table Expr
  persistentContext : Table Expr
  /-- The states of the lineage that were refused. -/
  refused : List PlacedState
deriving DecidableEq

namespace Candidate

def name (c : Candidate) : String := c.decl.name

def isAbstract (c : Candidate) : Bool := c.decl.isAbstract

/-- The declarations of all states in order. -/
def stateDecls (c : Candidate) : List StateDecl := c.states.values.map PlacedState.decl

/-- Fold a machine and its ancestors, nearest first, into one. -/
def ofLineage (o : Options) (m : MachineDecl) (ancestors : List MachineDecl) : Candidate :=
  let lineage := ancestors.reverse ++ [m]
  let merged := mergeStates o lineage
  { decl := m
    ancestors := ancestors.map MachineDecl.name
    states := merged.states
    actions := .ofList (lineage.flatMap MachineDecl.namedActions)
    guards := .ofList (lineage.flatMap MachineDecl.namedGuards)
    localContext := .ofList (lineage.flatMap MachineDecl.localBindings)
    persistentContext := .ofList (lineage.flatMap MachineDecl.persistentBindings)
    refused := merged.refused }

end Candidate

/-- The candidate of a machine, unless its ancestry is invalid. -/
def MachineDecl.candidate (m : MachineDecl) (machines : Table MachineDecl) (o : Options) :
    Except Violation Candidate :=
  (m.ancestors machines o).map (Candidate.ofLineage o m)

end StateMachines
