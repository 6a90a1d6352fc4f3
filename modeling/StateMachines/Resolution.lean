import StateMachines.System
import StateMachines.Verification

/-! # Resolution

A candidate becomes a machine by putting the actions and guards that its states use by name in
place. The names are those of the merged tables, so a state that was declared further up may use
what was declared below it. A system is built if nothing violates a rule.
-/

namespace StateMachines

namespace Candidate

/-- The action that is used. -/
def resolveAction (c : Candidate) : ActionUse → Except Violation Action
  | .inline action => .ok action
  | .named name =>
    match c.actions.get? name with
    | some action => .ok action
    | none => .error (c.violation .unknownAction name)

/-- The guard that is used. -/
def resolveGuard (c : Candidate) : GuardUse → Except Violation Guard
  | .inline guard => .ok guard
  | .named name =>
    match c.guards.get? name with
    | some guard => .ok guard
    | none => .error (c.violation .unknownGuard name)

/-- The guard that is used, if any. -/
def resolveGuard? (c : Candidate) : Option GuardUse → Except Violation (Option Guard)
  | none => .ok none
  | some use => (c.resolveGuard use).map some

/-- The transition with its guard and actions in place. -/
def resolveTransition (c : Candidate) (t : TransitionDecl) : Except Violation Transition := do
  let guard ← c.resolveGuard? t.guard
  let actions ← t.actions.mapM c.resolveAction
  .ok ⟨t.event, t.target, guard, actions⟩

/-- The state with its actions and transitions in place. -/
def resolveState (c : Candidate) (p : PlacedState) : Except Violation State := do
  let entry ← p.decl.entry.mapM c.resolveAction
  let exit ← p.decl.exit.mapM c.resolveAction
  let transitions ← p.decl.transitions.mapM c.resolveTransition
  .ok ⟨p.decl.name, p.decl.isVirtual, p.decl.isAbstract, p.declaredIn, entry, exit, transitions⟩

/-- The machine of a candidate; it fails only where the candidate violates a rule. -/
def resolve (c : Candidate) : Except Violation Machine := do
  let states ← c.states.map? c.resolveState
  .ok ⟨c.name, c.isAbstract, c.ancestors, states, c.actions, c.guards, c.localContext,
    c.persistentContext⟩

end Candidate

namespace SystemDecl

/-- Build the system, or answer the first violation. -/
def build (s : SystemDecl) (o : Options) : Except Violation System :=
  match s.violations o with
  | v :: _ => .error v
  | [] => do
    let machines ← (s.candidates o).mapM Candidate.resolve
    .ok ⟨s.name, .ofList (machines.map fun m => (m.name, m))⟩

end SystemDecl

end StateMachines
