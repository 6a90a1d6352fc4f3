import StateMachines.Context.Path
import StateMachines.Snapshot.Basic

/-! # Context errors

Why a read or a change of a context is refused. A context is as it was before an operation that
fails.
-/

namespace StateMachines

/-- Why the storage behind a context fails. -/
inductive StorageFault
  /-- The lock of a path is held, by the process whose number is in it if it can be read. -/
  | locked (path : String) (owner : Option Nat)
  /-- The lock of a path cannot be made. -/
  | cannotLock
  /-- The lock of a path cannot be made, since no file can have the path. -/
  | zeroInPath (path : String)
  /-- The lock of a path cannot be removed. -/
  | cannotUnlock
  /-- A file cannot be read or written. -/
  | disk
  /-- A file holds no snapshot that is accepted. -/
  | snapshot (e : SnapshotError)
  /-- A file holds a snapshot of another scope. -/
  | foreignScope (path : String) (found expected : Scope)
  /-- A variable cannot be read. -/
  | unreadable (name : String)
  /-- The variables cannot be listed. -/
  | unlistable
deriving DecidableEq, Repr

/-- Why a context refuses an operation. -/
inductive ContextError
  | unknownVariable (name : String)
  | variableExists (name : String) (scope : Scope)
  | emptyExtent (name : String)
  | storage (fault : StorageFault)
deriving DecidableEq, Repr

namespace StorageFault

/-- What failed; a failure of the system itself has no words. -/
def reason? : StorageFault → Option String
  | locked path owner =>
    let holder := match owner with
      | some process => s!"process {process}"
      | none => "an unknown process"
    let lock := lockPath path
    some s!"cannot lock {path}: held by {holder}, remove {lock} if it is no longer running"
  | cannotLock => some "cannot lock"
  | zeroInPath path => some s!"cannot lock {path}: file name contained an unexpected NUL byte"
  | cannotUnlock => some "cannot unlock"
  | disk => none
  | snapshot e => some e.message
  | foreignScope path found expected =>
    some s!"{path} holds a {found.text} context, expected {expected.text}"
  | unreadable name => some s!"cannot read '{name}'"
  | unlistable => some "cannot list"

end StorageFault

namespace ContextError

/-- The error as a sentence. -/
def message : ContextError → String
  | unknownVariable name => s!"Context variable '{name}' does not exist"
  | variableExists name scope =>
    s!"Context variable '{name}' already exists in the {scope.text} scope"
  | emptyExtent name => s!"Cannot create '{name}': the extent has no scopes"
  | storage fault =>
    match fault.reason? with
    | none => "Context storage failed"
    | some reason => s!"Context storage failed: {reason}"

end ContextError

end StateMachines
