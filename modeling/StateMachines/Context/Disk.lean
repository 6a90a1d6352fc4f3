import StateMachines.Context.Path
import StateMachines.Snapshot.Basic

/-! # A disk

The files and directories that contexts are kept in, by place, for one process. A path that is not
too long leads to a place if every name on it is looked up in a directory, and what is done at a
path is done at that place. Removing and reading files fail only by what is on the disk. A write or
a rename may also fail for no visible reason, and a write that fails may leave a part of its text
behind; what becomes of the next ones is written down in advance, so that every course of events is
one disk.
-/

namespace StateMachines

/-- What stands at a place. -/
inductive Disk.Entry
  | directory
  | text (contents : String)
  /-- A file that holds no text. -/
  | noText
deriving DecidableEq, Repr

/-- What becomes of a write or a rename. -/
inductive Disk.Attempt
  | works
  | fails
  /-- A write that fails when some characters are written. -/
  | tears (written : Nat)
deriving DecidableEq, Repr

/-- What is on a disk, and what will become of its use. -/
structure Disk where
  /-- What stands at places below the top. -/
  entries : List (Place × Disk.Entry)
  /-- What becomes of the next writes and renames; later ones work. -/
  attempts : List Disk.Attempt
  /-- The number of the process that uses the disk. -/
  process : Nat
  /-- The stamps of the snapshots that the process takes, of which some are used. -/
  stamps : Nat → Stamp
  used : Nat

namespace Disk

/-- A disk on which there is nothing and nothing fails. -/
def blank (process : Nat) (stamps : Nat → Stamp) : Disk := ⟨[], [], process, stamps, 0⟩

instance : Inhabited Disk := ⟨blank 0 fun _ => default⟩

/-! ## Places -/

/-- What stands at a place; the top is a directory. -/
def entryAt? (d : Disk) : Place → Option Entry
  | [] => some .directory
  | place => d.entries.lookup place

/-- A directory stands at a place. -/
def isDirectoryAt (d : Disk) (place : Place) : Bool := d.entryAt? place == some .directory

/-- Leave nothing at a place. -/
def eraseAt (d : Disk) (place : Place) : Disk :=
  { d with entries := d.entries.filter fun entry => entry.1 ≠ place }

/-- Put an entry at a place, whatever is there. -/
def putAt (d : Disk) (place : Place) (entry : Entry) : Disk :=
  { d with entries := (place, entry) :: (d.eraseAt place).entries }

/-- A text can be written at a place to which a path leads. -/
def admitsTextAt (d : Disk) : Place → Bool
  | [] => false
  | name :: here => Path.canName name && !d.isDirectoryAt (name :: here)

/-! ## Paths -/

/-- Look a name up in a directory. -/
def step? (d : Disk) (here : Place) (name : String) : Option Place :=
  if d.isDirectoryAt here then some (Path.follow here name) else none

/-- The place to which a path leads. -/
def place? (d : Disk) (path : String) : Option Place :=
  if Path.canFollow path then (Path.names path).foldlM d.step? [] else none

/-- What stands at a path. -/
def entry? (d : Disk) (path : String) : Option Entry := (d.place? path).bind d.entryAt?

/-- Something stands at a path. -/
def holds (d : Disk) (path : String) : Bool := (d.entry? path).isSome

/-- The text of a file. -/
def read? (d : Disk) (path : String) : Option String :=
  match d.entry? path with
  | some (.text contents) => some contents
  | _ => none

/-- The place at which a text is written that is written at a path, if one can be. -/
def target? (d : Disk) (path : String) : Option Place := (d.place? path).filter d.admitsTextAt

/-- Remove the file at a path. -/
def remove? (d : Disk) (path : String) : Option Disk :=
  match d.place? path with
  | none => none
  | some place =>
    match d.entryAt? place with
    | none | some .directory => none
    | some _ => some (d.eraseAt place)

/-- What becomes of the next write or rename. -/
def nextAttempt (d : Disk) : Attempt × Disk :=
  match d.attempts with
  | [] => (.works, d)
  | attempt :: rest => (attempt, { d with attempts := rest })

/-- Write a text at a path; the answer says whether it worked. -/
def write (d : Disk) (path contents : String) : Bool × Disk :=
  match d.target? path with
  | none => (false, d)
  | some place =>
    match d.nextAttempt with
    | (.works, d) => (true, d.putAt place (.text contents))
    | (.fails, d) => (false, d)
    | (.tears written, d) => (false, d.putAt place (.text (.ofList (contents.toList.take written))))

/-- Move the text at a path to another path, over the text that is there. -/
def rename (d : Disk) (source target : String) : Bool × Disk :=
  match d.place? source, d.read? source, d.target? target with
  | some here, some contents, some there =>
    match d.nextAttempt with
    | (.works, d) => (true, (d.eraseAt here).putAt there (.text contents))
    | (_, d) => (false, d)
  | _, _, _ => (false, d)

/-- Take the stamp of the next snapshot. -/
def takeStamp (d : Disk) : Stamp × Disk := (d.stamps d.used, { d with used := d.used + 1 })

/-! ## Directories -/

/-- Make the directories that are missing along some names, until one cannot be made. -/
def makeAlong (d : Disk) (here : Place) : List String → Disk
  | [] => d
  | name :: rest =>
    let there := Path.follow here name
    match d.entryAt? there with
    | some .directory => d.makeAlong there rest
    | some _ => d
    | none => if Path.canName name then (d.putAt there .directory).makeAlong there rest else d

/-- Make the directory at a path, and those on the way to it. -/
def makeDirectory (d : Disk) (path : String) : Disk :=
  if Path.canFollow path then d.makeAlong [] (Path.names path) else d

/-- Remove what stands at a path, with everything in it. -/
def clear (d : Disk) (path : String) : Disk :=
  match d.place? path with
  | none => d
  | some place => { d with entries := d.entries.filter fun entry => !place.isSuffixOf entry.1 }

/-- The names in the directory at a path, in order. -/
def list (d : Disk) (path : String) : List String :=
  match d.place? path with
  | none => []
  | some place =>
    let inside := d.entries.filterMap fun
      | (name :: here, _) => if here = place then some name else none
      | ([], _) => none
    inside.mergeSort fun a b => decide (a ≤ b)

/-! ## What is found after a change -/

private theorem lookup_first (entry : Place × Entry) (rest : List (Place × Entry)) (other : Place) :
    (entry :: rest).lookup other = if other = entry.1 then some entry.2 else rest.lookup other := by
  obtain ⟨place, held⟩ := entry
  by_cases hit : other = place
  · simp [hit]
  · simp [List.lookup_cons, hit, beq_false_of_ne hit]

private theorem lookup_filter_ne (entries : List (Place × Entry)) (place other : Place) :
    (entries.filter fun entry => entry.1 ≠ place).lookup other =
      if other = place then none else entries.lookup other := by
  induction entries with
  | nil => simp
  | cons entry rest ih =>
    rw [lookup_first]
    by_cases gone : entry.1 = place
    · rw [List.filter_cons_of_neg (by simp [gone]), ih]
      by_cases same : other = place <;> simp [same, gone]
    · rw [List.filter_cons_of_pos (by simp [gone]), lookup_first, ih]
      by_cases hit : other = entry.1 <;> simp [hit, gone]

/-- After erasing a place below the top, nothing is there and all else is as it was. -/
theorem entryAt?_eraseAt (d : Disk) {place : Place} (other : Place) (below : place ≠ []) :
    (d.eraseAt place).entryAt? other = if other = place then none else d.entryAt? other := by
  cases other with
  | nil => simp [entryAt?, Ne.symm below]
  | cons name here => exact lookup_filter_ne ..

/-- After putting an entry at a place below the top, it is there and all else is as it was. -/
theorem entryAt?_putAt (d : Disk) {place : Place} (other : Place) (entry : Entry)
    (below : place ≠ []) :
    (d.putAt place entry).entryAt? other =
      if other = place then some entry else d.entryAt? other := by
  cases other with
  | nil => simp [entryAt?, Ne.symm below]
  | cons name here =>
    have found : (d.putAt place entry).entryAt? (name :: here) =
        if name :: here = place then some entry else (d.eraseAt place).entryAt? (name :: here) :=
      lookup_first (place, entry) (d.eraseAt place).entries (name :: here)
    rw [found, entryAt?_eraseAt d _ below]
    by_cases same : name :: here = place <;> simp [same]

/-- A place that is not a directory is below the top. -/
theorem ne_nil_of_isDirectoryAt {d : Disk} {place : Place} (file : d.isDirectoryAt place = false) :
    place ≠ [] := by
  rintro rfl
  simp [isDirectoryAt, entryAt?] at file

theorem place?_congr {d e : Disk} (same : ∀ place, d.isDirectoryAt place = e.isDirectoryAt place)
    (path : String) : d.place? path = e.place? path := by
  have steps : d.step? = e.step? := by
    funext here name
    simp [step?, same]
  simp [place?, steps]

end Disk

end StateMachines
