import StateMachines.Context.Disk
import StateMachines.Context.Memory
import StateMachines.Number.Digits
import StateMachines.Snapshot.Json

/-! # Contexts in files

A context that keeps its variables in a snapshot on the disk. While it is open, a lock stands next
to the file and names the process. A change is made on a copy; the copy is written beside the file
and moved over it, and only then becomes the context. So the file always holds the variables of
the last change that succeeded.
-/

namespace StateMachines

/-- An open context that is kept at a path. -/
structure FileContext where
  path : String
  memory : Memory
deriving DecidableEq

/-- The number below 2³² that a lock holds: decimal digits, perhaps after a plus, between blanks. -/
def lockNumber? (contents : String) : Option Nat :=
  let cs := match Text.trim contents.toList with
    | '+' :: rest => rest
    | cs => cs
  match cs.mapM Digit.ofChar? with
  | none | some [] => none
  | some ds => if ofDigits ds < 2 ^ 32 then some (ofDigits ds) else none

/-- The process that holds the lock of a path, if it is locked and the lock can be read. -/
def Disk.lockOwner? (d : Disk) (path : String) : Option Nat :=
  (d.read? (lockPath path)).bind lockNumber?

/-- Lock a path for the process. A lock that the number of the process cannot be written into is
removed again. -/
def Disk.lock (d : Disk) (path : String) : Except ContextError Unit × Disk :=
  if d.holds (lockPath path) then (.error (.storage (.locked path (d.lockOwner? path))), d)
  else if Path.hasZero path then (.error (.storage (.zeroInPath path)), d)
  else
    match d.target? (lockPath path) with
    | none => (.error (.storage .cannotLock), d)
    | some place =>
      match d.nextAttempt with
      | (.works, d) => (.ok (), d.putAt place (.text (.ofList (digitChars d.process))))
      | (_, d) => (.error (.storage .cannotLock), d)

/-- Unlock a path. -/
def Disk.unlock (d : Disk) (path : String) : Except ContextError Unit × Disk :=
  match d.remove? (lockPath path) with
  | some d => (.ok (), d)
  | none => (.error (.storage .cannotUnlock), d)

namespace FileContext

/-- The variables at a path; a path at which there is nothing has none. -/
def load (d : Disk) (path : String) (scope : Scope) : Except ContextError Memory :=
  if d.holds path then
    match d.read? path with
    | none => .error (.storage .disk)
    | some contents =>
      match Snapshot.ofText contents with
      | .error e => .error (.storage (.snapshot e))
      | .ok s =>
        if s.scope ≠ scope then .error (.storage (.foreignScope path s.scope scope))
        else Memory.ofSnapshot s
  else .ok (.empty scope)

/-- Open the context at a path. If its variables cannot be loaded, it is unlocked again. -/
def openAt (d : Disk) (path : String) (scope : Scope) : Except ContextError FileContext × Disk :=
  match d.lock path with
  | (.error e, d) => (.error e, d)
  | (.ok (), d) =>
    match load d path scope with
    | .ok memory => (.ok ⟨path, memory⟩, d)
    | .error e => (.error e, (d.unlock path).2)

/-- Give up the lock. -/
def close (f : FileContext) (d : Disk) : Except ContextError Unit × Disk := d.unlock f.path

/-- Write variables to the disk: beside the file, then over it. -/
def persist (d : Disk) (path : String) (next : Memory) : Bool × Disk :=
  let (stamp, d) := d.takeStamp
  match d.write (stagingPath path) (next.snapshot stamp).toText with
  | (false, d) => (false, d)
  | (true, d) => d.rename (stagingPath path) path

/-- Change a variable. A change that the variables do not admit does not reach the disk, and one
that the disk does not take does not reach the variables. -/
def change (f : FileContext) (c : Change) (d : Disk) :
    Except ContextError Unit × FileContext × Disk :=
  match f.memory.change c with
  | .error e => (.error e, f, d)
  | .ok next =>
    match persist d f.path next with
    | (true, d) => (.ok (), { f with memory := next }, d)
    | (false, d) => (.error (.storage .disk), f, d)

end FileContext

end StateMachines
