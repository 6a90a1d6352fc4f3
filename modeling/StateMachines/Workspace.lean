import StateMachines.Context.Extent

/-! # Workspaces

A workspace keeps contexts by name over one disk. A context that is opened under a name that is
taken replaces the one that was there, which is given up after the new one is open.
-/

namespace StateMachines

/-- Contexts in use, and the disk under them. -/
structure Workspace where
  contexts : Table Context
  disk : Disk

namespace Workspace

/-- Give up a context: a file is unlocked, if that can be done. -/
def release (d : Disk) : Context → Disk
  | .file f => (f.close d).2
  | _ => d

/-- Keep a context under a name and give up the one that was there. -/
def keep (w : Workspace) (name : String) (c : Context) : Workspace :=
  let disk := match w.contexts.get? name with
    | some old => release w.disk old
    | none => w.disk
  ⟨w.contexts.set name c, disk⟩

/-- Open the context at a path under a name. -/
def openAt (w : Workspace) (name path : String) (scope : Scope) :
    Except ContextError Unit × Workspace :=
  match FileContext.openAt w.disk path scope with
  | (.ok f, disk) => (.ok (), { w with disk }.keep name (.file f))
  | (.error e, disk) => (.error e, { w with disk })

/-- Close the context of a name, which is gone afterwards in any case. -/
def close (w : Workspace) (name : String) : Except ContextError Unit × Workspace :=
  match w.contexts.get? name with
  | some (.file f) =>
    match f.close w.disk with
    | (answer, disk) => (answer, ⟨w.contexts.erase name, disk⟩)
  | _ => (.ok (), ⟨w.contexts.erase name, w.disk⟩)

/-- Give up the context of a name. -/
def drop (w : Workspace) (name : String) : Workspace :=
  match w.contexts.get? name with
  | some c => ⟨w.contexts.erase name, release w.disk c⟩
  | none => w

/-- Change a variable of the context of a name. -/
def change (w : Workspace) (name : String) (ch : Change) : Except ContextError Unit × Workspace :=
  match w.contexts.get? name with
  | none => (.ok (), w)
  | some c =>
    match c.change ch w.disk with
    | (answer, c, disk) => (answer, ⟨w.contexts.set name c, disk⟩)

/-- The extent of the contexts of some names, innermost first. -/
def extent (w : Workspace) (names : List String) : Extent :=
  ⟨names.filterMap w.contexts.get?, w.disk⟩

/-- Take back the contexts of an extent that was made of some names. -/
def takeBack (w : Workspace) (names : List String) (x : Extent) : Workspace :=
  ⟨w.contexts.setAll (names.zip x.scopes), x.disk⟩

end Workspace

end StateMachines
