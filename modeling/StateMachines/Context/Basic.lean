import StateMachines.Context.File

/-! # Contexts

A context is kept in memory, in a file, or in memory behind a channel on which some reads fail. All
are read and changed in the same way; changes may touch the disk.
-/

namespace StateMachines

/-- A context in memory of which some variables cannot be read, and which perhaps cannot be
listed. -/
structure UnreliableContext where
  memory : Memory
  unreadable : List String
  isUnlistable : Bool
deriving DecidableEq

/-- A scope of variables and where they are kept. -/
inductive Context
  | memory (m : Memory)
  | file (f : FileContext)
  | unreliable (u : UnreliableContext)
deriving DecidableEq

namespace Context

/-- The variables that a context holds, whether or not they can be read. -/
def contents : Context → Memory
  | memory m => m
  | file f => f.memory
  | unreliable u => u.memory

/-- The scope of all variables of a context. -/
def scope (c : Context) : Scope := c.contents.scope

/-- Read a variable. -/
def get (c : Context) (name : String) : Except ContextError Value :=
  match c with
  | unreliable u =>
    if name ∈ u.unreadable then .error (.storage (.unreadable name)) else u.memory.get name
  | _ => c.contents.get name

/-- Whether a variable is there. Where reads may fail this is found out by reading it. -/
def contains (c : Context) (name : String) : Except ContextError Bool :=
  match c with
  | unreliable _ =>
    match c.get name with
    | .ok _ => .ok true
    | .error (.unknownVariable _) => .ok false
    | .error e => .error e
  | _ => .ok (c.contents.contains name)

/-- The variables, oldest first. -/
def list (c : Context) : Except ContextError (List Variable) :=
  match c with
  | unreliable u => if u.isUnlistable then .error (.storage .unlistable) else .ok u.memory.list
  | _ => .ok c.contents.list

/-- Change a variable. -/
def change (c : Context) (ch : Change) (d : Disk) : Except ContextError Unit × Context × Disk :=
  match c with
  | memory m =>
    match m.change ch with
    | .ok next => (.ok (), memory next, d)
    | .error e => (.error e, c, d)
  | unreliable u =>
    match u.memory.change ch with
    | .ok next => (.ok (), unreliable { u with memory := next }, d)
    | .error e => (.error e, c, d)
  | file f =>
    match f.change ch d with
    | (answer, next, d) => (answer, file next, d)

/-- A snapshot of any context that can be listed. -/
def capture (c : Context) (stamp : Stamp) : Except ContextError Snapshot :=
  c.list.map fun vars => ⟨snapshotVersion, stamp, c.scope, vars⟩

end Context

end StateMachines
