import Mathlib.Data.Set.Insert
import StateMachines.Context.Basic
import StateMachines.Proofs.Durability

/-! # Locks

Whoever opens a context locks its path, and unlocks it when the context is given up or cannot be
loaded. So of paths that are kept apart the ones in use are the ones that are locked: each step on
the disk keeps this, and is seen only at the path at which it is done.
-/

namespace StateMachines

/-- The path of a context in a file. -/
def Context.path? : Context → Option String
  | .file f => some f.path
  | _ => none

/-- A change leaves a context in its file, or in memory. -/
theorem Context.path?_change (c : Context) (ch : Change) (d : Disk) :
    (c.change ch d).2.1.path? = c.path? := by
  cases c with
  | memory m =>
    rw [change]
    split <;> rfl
  | unreliable u =>
    rw [change]
    split <;> rfl
  | file f =>
    simp only [change, path?, FileContext.change]
    split
    · rfl
    · split <;> rfl

namespace Disk

variable {d e : Disk} {path p q : String} {paths live : Set String} {places : List Place}

/-! ## Paths that are kept apart -/

/-- A path leads to the place, or its lock or its staging file stands there. -/
def Owns (d : Disk) (path : String) (place : Place) : Prop :=
  d.place? path = some place ∨ d.place? (lockPath path) = some place ∨
    d.place? (stagingPath path) = some place

instance (d : Disk) (path : String) (place : Place) : Decidable (d.Owns path place) :=
  inferInstanceAs (Decidable (_ ∨ _ ∨ _))

/-- No two of the paths lead to one file, and none leads to the lock or the staging file of
another. -/
def KeepsApart (d : Disk) (paths : Set String) : Prop :=
  ∀ p ∈ paths, ∀ q ∈ paths, p ≠ q → ∀ place, d.place? p = some place →
    d.isDirectoryAt place = false → ¬ d.Owns q place

/-- Only files of one path have changed, and none if it is that of a directory. -/
def Touches (path : String) (d e : Disk) : Prop :=
  ∃ places, AgreesExcept places d e ∧
    ∀ place ∈ places, d.entry? path ≠ some .directory ∧ d.Owns path place

/-- What stands at a path and what stands at its lock are as they were. -/
def Spares (path : String) (d e : Disk) : Prop :=
  e.entry? path = d.entry? path ∧ e.entry? (lockPath path) = d.entry? (lockPath path)

theorem Spares.refl (path : String) (d : Disk) : Spares path d d := ⟨rfl, rfl⟩

theorem Spares.trans {c : Disk} (first : Spares path c d) (second : Spares path d e) :
    Spares path c e := ⟨second.1.trans first.1, second.2.trans first.2⟩

theorem KeepsApart.of_agrees (apart : d.KeepsApart paths) (agrees : AgreesExcept places d e) :
    e.KeepsApart paths := by
  simpa only [KeepsApart, Owns, agrees.place?_eq, agrees.directories] using apart

/-- What is done to the files of a path is seen neither at another one nor at its lock. -/
theorem KeepsApart.spares (apart : d.KeepsApart paths) (member : p ∈ paths) (among : q ∈ paths)
    (other : p ≠ q) (touches : Touches q d e) : Spares p d e := by
  obtain ⟨places, agrees, owned⟩ := touches
  constructor
  · apply agrees.entry?_eq_of_outside
    intro place inside file led
    exact apart p member q among other place led file (owned place inside).2
  · apply agrees.entry?_eq_of_outside
    intro place inside file led
    obtain ⟨noDirectory, atFile | atLock | atStaging⟩ := owned place inside
    · exact apart q among p member other.symm place atFile file (.inr (.inl led))
    · -- Two locks at one place are those of paths that lead to one file.
      obtain ⟨shared, ledHere, ledThere⟩ := place?_eq_of_lockPath led atLock
      rw [entry?_eq_entryAt? ledThere, ne_eq, ← isDirectoryAt_iff, Bool.not_eq_true] at noDirectory
      exact apart p member q among other shared ledHere noDirectory (.inl ledThere)
    · exact stagingPath_ne_lockPath led atStaging

/-! ## Locks that stand for paths in use -/

/-- The path leads to a file, and the lock is there. -/
structure IsLocked (d : Disk) (path : String) : Prop where
  site : ∃ here name, d.Site path here name
  noDirectory : d.entry? path ≠ some .directory
  lock : ∃ owner, d.entry? (lockPath path) = some (.text owner)

theorem IsLocked.holds (locked : d.IsLocked path) : d.holds (lockPath path) = true := by
  obtain ⟨owner, held⟩ := locked.lock
  simp [Disk.holds, held]

/-- A path stays locked if its lock stays. -/
theorem IsLocked.of_agrees (locked : d.IsLocked path) (agrees : AgreesExcept places d e)
    (same : e.entry? (lockPath path) = d.entry? (lockPath path)) : e.IsLocked path where
  site := by
    obtain ⟨here, name, site⟩ := locked.site
    exact ⟨here, name, agrees.site site⟩
  noDirectory directory := locked.noDirectory ((agrees.entry?_directory_iff path).mp directory)
  lock := by
    rw [same]
    exact locked.lock

/-- A path is locked while it is in use, and only then. -/
def Settles (d : Disk) (live : Set String) (path : String) : Prop :=
  path ∈ live ∧ d.IsLocked path ∨ path ∉ live ∧ d.holds (lockPath path) = false

theorem Settles.of_agrees {used : Set String} (settles : d.Settles live path)
    (agrees : AgreesExcept places d e)
    (sameLock : e.entry? (lockPath path) = d.entry? (lockPath path))
    (sameUse : path ∈ used ↔ path ∈ live) : e.Settles used path := by
  rcases settles with ⟨member, locked⟩ | ⟨unused, vacant⟩
  · exact .inl ⟨sameUse.mpr member, locked.of_agrees agrees sameLock⟩
  · refine .inr ⟨fun member => unused (sameUse.mp member), ?_⟩
    rwa [Disk.holds, sameLock]

/-- Of paths that are kept apart, the ones in use are locked, and no others. -/
structure Guards (d : Disk) (paths live : Set String) : Prop where
  apart : d.KeepsApart paths
  inside : live ⊆ paths
  settles : ∀ p ∈ paths, d.Settles live p

namespace Guards

theorem locked (guards : d.Guards paths live) (used : p ∈ live) : d.IsLocked p := by
  rcases guards.settles p (guards.inside used) with ⟨-, locked⟩ | ⟨unused, -⟩
  · exact locked
  · exact absurd used unused

theorem holds_iff (guards : d.Guards paths live) (member : p ∈ paths) :
    d.holds (lockPath p) = true ↔ p ∈ live := by
  rcases guards.settles p member with ⟨used, locked⟩ | ⟨unused, vacant⟩
  · simp [used, locked.holds]
  · simp [unused, vacant]

/-- What changes no files leaves the locks as they are. -/
theorem of_agrees (guards : d.Guards paths live) (agrees : AgreesExcept [] d e) :
    e.Guards paths live ∧ ∀ p, Spares p d e := by
  have spares (p : String) : Spares p d e :=
    ⟨agrees.entry?_eq_of_outside (by simp), agrees.entry?_eq_of_outside (by simp)⟩
  refine ⟨⟨guards.apart.of_agrees agrees, guards.inside, ?_⟩, spares⟩
  intro p member
  exact (guards.settles p member).of_agrees agrees (spares p).2 .rfl

/-- When something was done to the files of a path, only the lock of that path is to be looked at
again. -/
theorem touch {used : Set String} (guards : d.Guards paths live) (among : q ∈ paths)
    (touches : Touches q d e) (others : ∀ p, p ≠ q → (p ∈ used ↔ p ∈ live))
    (own : e.Settles used q) : e.Guards paths used ∧ ∀ p ∈ paths, p ≠ q → Spares p d e := by
  have spares (p) (member : p ∈ paths) (other : p ≠ q) : Spares p d e :=
    guards.apart.spares member among other touches
  obtain ⟨places, agrees, -⟩ := touches
  refine ⟨⟨guards.apart.of_agrees agrees, ?_, ?_⟩, spares⟩
  · intro p member
    by_cases same : p = q
    · exact same ▸ among
    · exact guards.inside ((others p same).mp member)
  · intro p member
    by_cases same : p = q
    · exact same ▸ own
    · exact (guards.settles p member).of_agrees agrees (spares p member same).2 (others p same)

end Guards

/-! ## Steps on the disk -/

/-- Unlock a path if there is one. -/
def giveUp (d : Disk) : Option String → Disk
  | some path => (d.unlock path).2
  | none => d

/-- Put a file where a path leads, over a file that is there. -/
def supply (d : Disk) (path : String) (contents : Entry) : Disk :=
  match d.target? path with
  | some place => d.putAt place contents
  | none => d

theorem Site.touches {here : Place} {name : String} (site : d.Site path here name)
    (noDirectory : d.entry? path ≠ some .directory) (agrees : AgreesExcept places d e)
    (inside : places ⊆ [name :: here, (name ++ ".lock") :: here, (name ++ ".tmp") :: here]) :
    Touches path d e := by
  refine ⟨places, agrees, ?_⟩
  intro place member
  refine ⟨noDirectory, ?_⟩
  have own := inside member
  simp only [List.mem_cons, List.not_mem_nil, or_false] at own
  rcases own with rfl | rfl | rfl
  · exact .inl site.file
  · exact .inr (.inl site.lock)
  · exact .inr (.inr site.staging)

namespace Guards

/-- Everything that opening can do: the path is in use, or it fails otherwise and the locks are as
they were, or the path is in use from now on. -/
theorem openAt {scope : Scope} {answer : Except ContextError FileContext}
    (guards : d.Guards paths live) (member : path ∈ paths)
    (opened : FileContext.openAt d path scope = (answer, e)) :
    (path ∈ live ∧ answer = .error (.storage (.locked path (d.lockOwner? path))) ∧ e = d) ∨
    path ∉ live ∧ (∀ p ∈ paths, p ≠ path → Spares p d e) ∧
      ((∃ refusal, answer = .error refusal ∧ (∀ owner, refusal ≠ .storage (.locked path owner)) ∧
        e.Guards paths live) ∨
      ∃ m, answer = .ok ⟨path, m⟩ ∧ e.Guards paths (insert path live)) := by
  have unused (free : d.holds (lockPath path) = false) : path ∉ live := by
    rw [← guards.holds_iff member, free]
    simp
  rcases FileContext.openAt_cases opened with ⟨held, rfl, rfl⟩ |
    ⟨free, ⟨refusal, rfl, other, same⟩ | ⟨m, here, name, owner, rfl, loaded, site, agrees, held⟩⟩
  · exact .inl ⟨(guards.holds_iff member).mp held, rfl, rfl⟩
  · obtain ⟨kept, spares⟩ := guards.of_agrees same
    exact .inr ⟨unused free, fun p _ _ => spares p, .inl ⟨refusal, rfl, other, kept⟩⟩
  · have noDirectory := FileContext.entry?_ne_directory_of_load loaded
    have own : e.Settles (insert path live) path := by
      refine .inl ⟨Set.mem_insert path live, ⟨here, name, agrees.site site⟩, ?_, owner, ?_⟩
      · rwa [ne_eq, agrees.entry?_directory_iff]
      · rw [entry?_eq_entryAt? (agrees.site site).lock, held]
    obtain ⟨kept, spares⟩ := guards.touch member (site.touches noDirectory agrees (by simp))
      (fun p other => by simp [other]) own
    exact .inr ⟨unused free, spares, .inr ⟨m, rfl, kept⟩⟩

/-- A path that is given up is not in use any more. -/
theorem giveUp {path? : Option String} (guards : d.Guards paths live)
    (used : ∀ p, path? = some p → p ∈ live) :
    (d.giveUp path?).Guards paths {p | p ∈ live ∧ path? ≠ some p} ∧
      ∀ p ∈ paths, path? ≠ some p → Spares p d (d.giveUp path?) := by
  cases path? with
  | none =>
    refine ⟨?_, fun p _ _ => .refl p d⟩
    simpa [Disk.giveUp] using guards
  | some path =>
    obtain ⟨⟨here, name, site⟩, noDirectory, owner, held⟩ := guards.locked (used path rfl)
    rw [entry?_eq_entryAt? site.lock] at held
    obtain ⟨e, unlocked, agrees, vacant⟩ := FileContext.exists_unlock site.lock held
    have own : e.Settles {p | p ∈ live ∧ some path ≠ some p} path := by
      refine .inr ⟨by simp, ?_⟩
      simp [Disk.holds, entry?_eq_entryAt? (agrees.site site).lock, vacant]
    obtain ⟨kept, spares⟩ := guards.touch (guards.inside (used path rfl))
      (site.touches noDirectory agrees (by simp)) (fun p other => by simp [Ne.symm other]) own
    rw [Disk.giveUp, unlocked]
    exact ⟨kept, fun p member other => spares p member fun same => other (same ▸ rfl)⟩

/-- A change of a context, made or not, leaves the locks as they are. -/
theorem change {c : Context} (guards : d.Guards paths live)
    (used : ∀ p, c.path? = some p → p ∈ live) (ch : Change) :
    (c.change ch d).2.2.Guards paths live ∧
      ∀ p ∈ paths, c.path? ≠ some p → Spares p d (c.change ch d).2.2 := by
  cases c with
  | memory m =>
    rw [Context.change]
    split <;> exact ⟨guards, fun p _ _ => .refl p d⟩
  | unreliable u =>
    rw [Context.change]
    split <;> exact ⟨guards, fun p _ _ => .refl p d⟩
  | file f =>
    have member := guards.inside (used f.path rfl)
    obtain ⟨⟨here, name, site⟩, noDirectory, -⟩ := guards.locked (used f.path rfl)
    rcases changed : f.change ch d with ⟨answer, g, e⟩
    have agrees : AgreesExcept [(name ++ ".tmp") :: here, name :: here] d e := by
      rcases FileContext.change_cases site changed with
        ⟨_, -, -, -, rfl⟩ | ⟨_, -, -, -, agrees⟩ | ⟨_, -, -, -, agrees, -⟩
      · exact .refl _ _
      · exact agrees.mono (by simp)
      · exact agrees
    have own : e.Settles live f.path :=
      (guards.settles f.path member).of_agrees agrees (agrees.entry?_eq site.lock (by simp)) .rfl
    obtain ⟨kept, spares⟩ := guards.touch member
      (site.touches noDirectory agrees (by simp)) (fun _ _ => .rfl) own
    rw [Context.change, changed]
    exact ⟨kept, fun p member other => spares p member fun same => other (same ▸ rfl)⟩

/-- A file that someone else puts where a path leads leaves the locks as they are. -/
theorem supply {contents : Entry} (guards : d.Guards paths live) (member : path ∈ paths)
    (plain : contents ≠ .directory) :
    (d.supply path contents).Guards paths live ∧
      ∀ p ∈ paths, p ≠ path → Spares p d (d.supply path contents) := by
  rw [Disk.supply]
  split
  case h_2 => exact ⟨guards, fun p _ _ => .refl p d⟩
  next place target =>
  obtain ⟨led, admitted⟩ := target?_eq_some_iff.mp target
  have file := isDirectoryAt_of_admitsTextAt admitted
  have agrees := AgreesExcept.putAt plain file
  have noDirectory : d.entry? path ≠ some .directory := by
    rwa [entry?_eq_entryAt? led, ne_eq, ← isDirectoryAt_iff, Bool.not_eq_true]
  have touches : Touches path d (d.putAt place contents) := by
    refine ⟨[place], agrees, ?_⟩
    intro other inside
    obtain rfl := List.mem_singleton.mp inside
    exact ⟨noDirectory, .inl led⟩
  have sameLock : entry? (d.putAt place contents) (lockPath path) = d.entry? (lockPath path) := by
    apply agrees.entry?_eq_of_outside
    intro other inside _ ledLock
    obtain rfl := List.mem_singleton.mp inside
    obtain ⟨here, name, rfl, ledFile, -⟩ := exists_beside ledLock noDirectory
    exact FileContext.file_not_mem (by decide)
      (List.mem_singleton.mpr (Option.some.inj (ledFile.symm.trans led)))
  exact guards.touch member touches (fun _ _ => .rfl)
    ((guards.settles path member).of_agrees agrees sameLock .rfl)

end Guards

end Disk

end StateMachines
