/-! # Violations

What can be wrong with a declaration. A violation names the machine in which it is found and,
where there is one, the name at fault: a state, a parent, a target, an action or a guard.
-/

namespace StateMachines

/-- The rules, in no order. -/
inductive Violation.Kind
  /-- Two machines have one name. -/
  | duplicateMachine
  /-- A parent is not declared, or met twice, or too far away. -/
  | invalidParent
  /-- A state is declared again that may not be. -/
  | unsupportedOverride
  /-- A machine that is not abstract inherits an abstract state. -/
  | inheritedAbstractState
  /-- A machine that is not abstract declares an abstract state. -/
  | ownAbstractState
  /-- A transition leads to a state that is not there. -/
  | unknownTarget
  /-- An action is used by a name that is not there. -/
  | unknownAction
  /-- A guard is used by a name that is not there. -/
  | unknownGuard
deriving DecidableEq, Repr

/-- A rule, and where it is violated. -/
structure Violation where
  kind : Violation.Kind
  machine : String
  subject : Option String
deriving DecidableEq, Repr

namespace Violation

namespace Kind

/-- The rule as a word. -/
def code : Kind → String
  | duplicateMachine => "STATE_MACHINE_NAME_DUPLICATE"
  | invalidParent => "STATE_MACHINE_INHERITS_FROM_INVALID"
  | unsupportedOverride => "STATE_MACHINE_OVERRIDES_UNSUPPORTED_STATES"
  | inheritedAbstractState => "STATE_MACHINE_DOES_NOT_OVERRIDE_ABSTRACT_STATES"
  | ownAbstractState => "NON_ABSTRACT_STATE_MACHINE_HAS_ABSTRACT_STATES"
  | unknownTarget => "TRANSITION_TARGET_INVALID"
  | unknownAction => "UNKNOWN_ACTION_REFERENCE"
  | unknownGuard => "UNKNOWN_GUARD_REFERENCE"

/-- The rule as a sentence. -/
def text : Kind → String
  | duplicateMachine => "Duplicate state machine name"
  | invalidParent => "State machine inherits from an invalid state machine"
  | unsupportedOverride => "State machine overrides a state that is neither virtual nor abstract"
  | inheritedAbstractState => "State machine does not override inherited abstract states"
  | ownAbstractState => "Non-abstract state machine declares abstract states"
  | unknownTarget => "Transition targets an unknown state"
  | unknownAction => "Reference to an unknown action"
  | unknownGuard => "Reference to an unknown guard"

end Kind

/-- The violation as a sentence. -/
def message (v : Violation) : String :=
  let place := s!"{v.kind.text} in state machine '{v.machine}'"
  match v.subject with
  | none => place
  | some subject => s!"{place}: '{subject}'"

end Violation

end StateMachines
