import StateMachines.Context.Scope
import StateMachines.Snapshot.Identifier
import StateMachines.Snapshot.Timestamp

/-! # Snapshots

A snapshot is a copy of the variables of a context, with the version of its format, an identifier
and the time at which it was taken. A valid one has the version that is in use, and its variables
carry its own scope and have distinct names.
-/

namespace StateMachines

/-- The version of the format. -/
def snapshotVersion : Nat := 1

/-- What tells two snapshots of the same variables apart. -/
structure Stamp where
  id : Identifier
  takenAt : Timestamp
deriving DecidableEq, Repr, Inhabited

/-- A copy of the variables of a context. -/
structure Snapshot where
  version : Nat
  stamp : Stamp
  scope : Scope
  vars : List Variable
deriving DecidableEq, Repr, Inhabited

/-- The two written forms of a snapshot. -/
inductive SnapshotFormat
  | json
  | binary
deriving DecidableEq, Repr

/-- Why a snapshot is not accepted. -/
inductive SnapshotError
  | malformed (format : SnapshotFormat)
  | unsupportedVersion (found : Nat)
  | scopeMismatch (variableName : String) (expected found : Scope)
  | duplicateVariable (name : String)
deriving DecidableEq, Repr

namespace SnapshotError

/-- The error as a sentence. -/
def message : SnapshotError → String
  | malformed .json => "Cannot decode JSON context snapshot"
  | malformed .binary => "Cannot decode binary context snapshot"
  | unsupportedVersion found =>
    s!"Context snapshot version {found} is not readable, expected {snapshotVersion}"
  | scopeMismatch variableName expected found =>
    s!"Snapshot variable '{variableName}' belongs to the {found.text} scope, not {expected.text}"
  | duplicateVariable name => s!"Snapshot declares context variable '{name}' more than once"

end SnapshotError

namespace Snapshot

/-- Check variables in order against the names of those before them; on one variable a wrong scope
comes before a repeated name. -/
def checkVariables (scope : Scope) :
    (seen : List String) → List Variable → Except SnapshotError Unit
  | _, [] => .ok ()
  | seen, v :: rest =>
    if v.scope ≠ scope then .error (.scopeMismatch v.name scope v.scope)
    else if v.name ∈ seen then .error (.duplicateVariable v.name)
    else checkVariables scope (v.name :: seen) rest

/-- Check the version, then the variables. -/
def validate (s : Snapshot) : Except SnapshotError Unit :=
  if s.version ≠ snapshotVersion then .error (.unsupportedVersion s.version)
  else checkVariables s.scope [] s.vars

/-- A decoded snapshot is accepted if it is valid. -/
def accept (format : SnapshotFormat) (decoded : Option Snapshot) : Except SnapshotError Snapshot :=
  match decoded with
  | none => .error (.malformed format)
  | some s => s.validate.map fun _ => s

/-- Equality of the language, see `Value.equals`. -/
def equals (a b : Snapshot) : Bool :=
  a.version == b.version && decide (a.stamp = b.stamp) && a.scope == b.scope
    && a.vars.length == b.vars.length
    && (a.vars.zip b.vars).all fun (v, w) => v.equals w

end Snapshot

end StateMachines
