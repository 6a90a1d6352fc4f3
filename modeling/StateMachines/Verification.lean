import StateMachines.Inheritance

/-! # Verification

All violations of a declaration, in a fixed order: rule by rule, within a rule machine by machine
as they are declared, and within a machine in the order of its merged states. Machines whose
ancestry is invalid take no part in the later rules.
-/

namespace StateMachines

namespace StateDecl

/-- The uses of actions in a state: on entry, in transitions, on exit. -/
def actionUses (s : StateDecl) : List ActionUse :=
  s.entry ++ s.transitions.flatMap TransitionDecl.actions ++ s.exit

end StateDecl

namespace ActionUse

/-- The name by which an action is used. -/
def reference? : ActionUse → Option String
  | named name => some name
  | inline _ => none

end ActionUse

namespace GuardUse

/-- The name by which a guard is used. -/
def reference? : GuardUse → Option String
  | named name => some name
  | inline _ => none

end GuardUse

namespace Candidate

/-- A violation of a candidate. -/
def violation (c : Candidate) (kind : Violation.Kind) (subject : String) : Violation :=
  ⟨kind, c.name, some subject⟩

/-- The states of the machine itself that were refused. -/
def unsupportedOverrides (c : Candidate) : List Violation :=
  (c.refused.filter fun p => p.declaredIn == c.name).map fun p =>
    c.violation .unsupportedOverride p.decl.name

/-- The abstract states of a machine that is not abstract, by where they are declared. -/
def abstractStates (c : Candidate) (own : Bool) (kind : Violation.Kind) : List Violation :=
  if c.isAbstract then []
  else
    (c.states.entries.filter fun (_, p) => p.decl.isAbstract && (p.declaredIn == c.name) == own).map
      fun (name, _) => c.violation kind name

/-- Abstract states that a machine has from an ancestor. -/
def inheritedAbstractStates (c : Candidate) : List Violation :=
  c.abstractStates false .inheritedAbstractState

/-- Abstract states that a machine declares itself. -/
def ownAbstractStates (c : Candidate) : List Violation := c.abstractStates true .ownAbstractState

/-- The transitions of all states in order. -/
def transitions (c : Candidate) : List TransitionDecl :=
  c.stateDecls.flatMap StateDecl.transitions

/-- Targets that are not among the states. -/
def unknownTargets (c : Candidate) : List Violation :=
  (c.transitions.filter fun t => !c.states.contains t.target).map fun t =>
    c.violation .unknownTarget t.target

/-- Uses of guards by names that are not there. -/
def unknownGuards (c : Candidate) : List Violation :=
  ((c.transitions.filterMap fun t => t.guard.bind GuardUse.reference?).filter fun name =>
    !c.guards.contains name).map (c.violation .unknownGuard)

/-- Uses of actions by names that are not there. -/
def unknownActions (c : Candidate) : List Violation :=
  (((c.stateDecls.flatMap StateDecl.actionUses).filterMap ActionUse.reference?).filter fun name =>
    !c.actions.contains name).map (c.violation .unknownAction)

end Candidate

/-- The names that were declared before, in order. -/
def repeatedNames (seen : List String) : List String → List String
  | [] => []
  | name :: rest =>
    if name ∈ seen then name :: repeatedNames seen rest else repeatedNames (name :: seen) rest

namespace SystemDecl

/-- The machines that repeat a name. -/
def duplicateMachines (s : SystemDecl) : List Violation :=
  (repeatedNames [] (s.machines.map MachineDecl.name)).map fun name =>
    ⟨.duplicateMachine, name, none⟩

/-- For each machine, its candidate or what is wrong with its ancestry. -/
def lineages (s : SystemDecl) (o : Options) : List (Except Violation Candidate) :=
  let machines := s.machineTable
  machines.values.map fun m => m.candidate machines o

/-- The candidates of the machines whose ancestry is valid. -/
def candidates (s : SystemDecl) (o : Options) : List Candidate :=
  (s.lineages o).filterMap Except.toOption

/-- What is wrong with the ancestry of machines. -/
def invalidParents (s : SystemDecl) (o : Options) : List Violation :=
  (s.lineages o).filterMap fun
    | .error v => some v
    | .ok _ => none

/-- All violations in order. -/
def violations (s : SystemDecl) (o : Options) : List Violation :=
  let candidates := s.candidates o
  s.duplicateMachines ++ s.invalidParents o
    ++ candidates.flatMap Candidate.unsupportedOverrides
    ++ candidates.flatMap Candidate.inheritedAbstractStates
    ++ candidates.flatMap Candidate.ownAbstractStates
    ++ candidates.flatMap Candidate.unknownTargets
    ++ candidates.flatMap Candidate.unknownGuards
    ++ candidates.flatMap Candidate.unknownActions

end SystemDecl

end StateMachines
