import StateMachines.Context.File
import StateMachines.Proofs.Siblings
import StateMachines.Proofs.SnapshotJson

/-! # What a context finds when it is opened again

While a context is open its file holds the text of a snapshot of its variables, or nothing if it
never had any, and so it is restored exactly if that text is read back. A float that is no number is
written as `null`, some others as a numeral that is worth a neighbour, and lists may stand deeper
than is read: a context with such a value is open and in order, and its file cannot be read.
-/

namespace StateMachines

namespace FileContext

open Disk

variable {d e : Disk} {path name : String} {scope : Scope} {here : Place} {f g : FileContext}

/-- A file does not stand at a longer name. -/
theorem file_not_mem {letters : String} (longer : letters ≠ "") :
    name :: here ∉ [(name ++ letters) :: here] := by
  intro inside
  apply longer
  simpa using (List.mem_singleton.mp inside).symm

/-! ## One change -/

/-- Keeping variables changes the files beside the path and at it, and only if it works the latter,
which then holds the text of their snapshot. -/
theorem persist_cases {next : Memory} {works : Bool} (site : d.Site path here name)
    (done : persist d path next = (works, e)) :
    (works = false ∧ AgreesExcept [(name ++ ".tmp") :: here] d e) ∨
      works = true ∧ AgreesExcept [(name ++ ".tmp") :: here, name :: here] d e ∧
        e.entryAt? (name :: here) = some (.text (next.snapshot (d.stamps d.used)).toText) := by
  have stamped : AgreesExcept [] d { d with used := d.used + 1 } :=
    ⟨fun _ _ => rfl, fun _ => rfl, List.suffix_refl _, rfl, rfl⟩
  have siteStamped := stamped.site site
  simp only [persist, takeStamp] at done
  rcases wrote : write { d with used := d.used + 1 } (stagingPath path)
    (next.snapshot (d.stamps d.used)).toText with ⟨written, c⟩
  obtain ⟨staged, text⟩ := write_cases siteStamped.staging wrote
  have before := stamped.trans staged
  rw [wrote] at done
  cases written with
  | false =>
    obtain ⟨rfl, rfl⟩ := Prod.mk.inj done
    exact .inl ⟨rfl, before⟩
  | true =>
    have siteWritten := staged.site siteStamped
    rcases rename_cases siteWritten.staging siteWritten.file done with
      ⟨rfl, nothing⟩ | ⟨rfl, moved, same⟩
    · exact .inl ⟨rfl, before.trans nothing⟩
    · refine .inr ⟨rfl, ?_, same.trans (text rfl)⟩
      exact (before.trans moved).mono (by simp)

/-- Everything that a change can do: it is refused, or the disk does not take it, or it is made and
the file holds the new variables. -/
theorem change_cases {c : Change} {answer : Except ContextError Unit}
    (site : d.Site f.path here name) (changed : f.change c d = (answer, g, e)) :
    (∃ refusal, f.memory.change c = .error refusal ∧ answer = .error refusal ∧ g = f ∧ e = d) ∨
    (∃ next, f.memory.change c = .ok next ∧ answer = .error (.storage .disk) ∧ g = f ∧
      AgreesExcept [(name ++ ".tmp") :: here] d e) ∨
    (∃ next, f.memory.change c = .ok next ∧ answer = .ok () ∧ g = { f with memory := next } ∧
      AgreesExcept [(name ++ ".tmp") :: here, name :: here] d e ∧
      e.entryAt? (name :: here) = some (.text (next.snapshot (d.stamps d.used)).toText)) := by
  rw [change] at changed
  cases planned : f.memory.change c with
  | error refusal =>
    simp only [planned, Prod.mk.injEq] at changed
    obtain ⟨rfl, rfl, rfl⟩ := changed
    exact .inl ⟨refusal, rfl, rfl, rfl, rfl⟩
  | ok next =>
    rcases done : persist d f.path next with ⟨works, after⟩
    simp only [planned, done] at changed
    rcases persist_cases site done with ⟨rfl, nothing⟩ | ⟨rfl, moved, text⟩
    · obtain ⟨rfl, rfl, rfl⟩ : _ ∧ _ ∧ _ := by simpa using changed
      exact .inr (.inl ⟨next, rfl, rfl, rfl, nothing⟩)
    · obtain ⟨rfl, rfl, rfl⟩ : _ ∧ _ ∧ _ := by simpa using changed
      exact .inr (.inr ⟨next, rfl, rfl, rfl, moved, text⟩)

/-! ## Any number of changes -/

/-- Make changes one after the other; one that fails is passed over. -/
def changeAll (f : FileContext) : List Change → Disk → FileContext × Disk
  | [], d => (f, d)
  | c :: rest, d =>
    let (_, g, e) := f.change c d
    g.changeAll rest e

/-- An open context is locked, and its file holds a snapshot of its variables, or nothing as long as
it has never had any. -/
structure Kept (f : FileContext) (d : Disk) (here : Place) (name : String) : Prop where
  site : d.Site f.path here name
  locked : ∃ owner, d.entryAt? ((name ++ ".lock") :: here) = some (.text owner)
  kept : (d.entryAt? (name :: here) = none ∧ f.memory = .empty f.memory.scope) ∨
    ∃ n, d.entryAt? (name :: here) = some (.text (f.memory.snapshot (d.stamps n)).toText)

/-- A change keeps the context open, whether it is made or not, and touches no other files. -/
theorem Kept.change {c : Change} {answer : Except ContextError Unit} (kept : f.Kept d here name)
    (changed : f.change c d = (answer, g, e)) :
    g.Kept e here name ∧ AgreesExcept [(name ++ ".tmp") :: here, name :: here] d e ∧
      g.path = f.path ∧ g.memory.scope = f.memory.scope := by
  rcases change_cases kept.site changed with
    ⟨_, -, -, rfl, rfl⟩ | ⟨next, -, -, rfl, agrees⟩ | ⟨next, made, -, rfl, agrees, text⟩
  · exact ⟨kept, .refl _ _, rfl, rfl⟩
  · refine ⟨⟨agrees.site kept.site, ?_, ?_⟩, agrees.mono (by simp), rfl, rfl⟩
    · rw [agrees.entries _ (by simp)]
      exact kept.locked
    · rw [agrees.entries _ (file_not_mem (by decide)), agrees.stamps]
      exact kept.kept
  · refine ⟨⟨agrees.site kept.site, ?_, .inr ⟨d.used, ?_⟩⟩, agrees, rfl,
      Memory.scope_of_change made⟩
    · rw [agrees.entries _ (by simp)]
      exact kept.locked
    · rw [text, agrees.stamps]

/-- What a change keeps, any number of changes keeps. -/
theorem Kept.changeAll {changes : List Change} (kept : f.Kept d here name)
    (ran : f.changeAll changes d = (g, e)) :
    g.Kept e here name ∧ AgreesExcept [(name ++ ".tmp") :: here, name :: here] d e ∧
      g.path = f.path ∧ g.memory.scope = f.memory.scope := by
  induction changes generalizing f d with
  | nil =>
    obtain ⟨rfl, rfl⟩ := Prod.mk.inj ran
    exact ⟨kept, .refl _ _, rfl, rfl⟩
  | cons c rest ih =>
    rcases first : f.change c d with ⟨answer, middle, after⟩
    rw [FileContext.changeAll, first] at ran
    obtain ⟨keptFirst, agreesFirst, pathFirst, scopeFirst⟩ := kept.change first
    obtain ⟨keptRest, agreesRest, pathRest, scopeRest⟩ := ih keptFirst ran
    exact ⟨keptRest, (agreesFirst.trans agreesRest).mono (by simp), pathRest.trans pathFirst,
      scopeRest.trans scopeFirst⟩

/-! ## Opening and closing -/

theorem load_congr (same : d.entry? path = e.entry? path) :
    load d path scope = load e path scope := by
  have read : d.read? path = e.read? path := by
    unfold read?
    rw [same]
  rw [load, load, Disk.holds, Disk.holds, same, read]

theorem load_of_vacant (scope : Scope) (vacant : d.entry? path = none) :
    load d path scope = .ok (.empty scope) := by
  simp [load, Disk.holds, vacant]

/-- A text is loaded if it holds a snapshot of the scope that can be restored. -/
theorem load_eq_ok_iff {contents : String} {m : Memory}
    (held : d.entry? path = some (.text contents)) :
    load d path scope = .ok m ↔
      ∃ s, Snapshot.ofText contents = .ok s ∧ s.scope = scope ∧ Memory.ofSnapshot s = .ok m := by
  have read : d.read? path = some contents := read?_eq_some_iff.mpr held
  simp only [load, Disk.holds, held, Option.isSome_some, if_true, read]
  cases decoded : Snapshot.ofText contents with
  | error refusal => simp
  | ok s =>
    by_cases own : s.scope = scope
    · simp [own]
    · simp [own]

/-- A lock that is there can be taken away; nothing else changes. -/
theorem exists_unlock {place : Place} {owner : String} (led : d.place? (lockPath path) = some place)
    (held : d.entryAt? place = some (.text owner)) :
    ∃ e, d.unlock path = (.ok (), e) ∧ AgreesExcept [place] d e ∧ e.entryAt? place = none := by
  have file : d.isDirectoryAt place = false := by simp [isDirectoryAt, held]
  refine ⟨d.eraseAt place, ?_, .eraseAt file, ?_⟩
  · simp [unlock, remove?, led, held]
  · rw [entryAt?_eraseAt d _ (ne_nil_of_isDirectoryAt file), if_pos rfl]

/-- The lock of an open context can be given up; nothing else changes. -/
theorem Kept.close (kept : f.Kept d here name) :
    ∃ e, f.close d = (.ok (), e) ∧ AgreesExcept [(name ++ ".lock") :: here] d e ∧
      e.entryAt? ((name ++ ".lock") :: here) = none := by
  obtain ⟨owner, held⟩ := kept.locked
  exact exists_unlock kept.site.lock held

/-- Everything that locking can do: the lock is held, or it cannot be made and all is as it was, or
it stands where nothing stood. -/
theorem lock_cases {answer : Except ContextError Unit} (locked : d.lock path = (answer, e)) :
    (d.holds (lockPath path) = true ∧
      answer = .error (.storage (.locked path (d.lockOwner? path))) ∧ e = d) ∨
    d.holds (lockPath path) = false ∧
      ((∃ fault, answer = .error (.storage fault) ∧ (∀ owner, fault ≠ .locked path owner) ∧
        AgreesExcept [] d e) ∨
      answer = .ok () ∧ ∃ place owner, d.target? (lockPath path) = some place ∧
        AgreesExcept [place] d e ∧ e.entryAt? place = some (.text owner)) := by
  rw [lock] at locked
  split at locked
  · next held =>
    obtain ⟨rfl, rfl⟩ := Prod.mk.inj locked
    exact .inl ⟨held, rfl, rfl⟩
  next free =>
  refine .inr ⟨by simpa using free, ?_⟩
  split at locked
  · obtain ⟨rfl, rfl⟩ := Prod.mk.inj locked
    exact .inl ⟨_, rfl, by simp, .refl [] d⟩
  split at locked
  · obtain ⟨rfl, rfl⟩ := Prod.mk.inj locked
    exact .inl ⟨_, rfl, by simp, .refl [] d⟩
  next place target =>
  have attempted := AgreesExcept.nextAttempt d
  have file := isDirectoryAt_of_admitsTextAt (target?_eq_some_iff.mp target).2
  split at locked
  · next c shape =>
    rw [shape] at attempted
    rw [← attempted.directories] at file
    obtain ⟨rfl, rfl⟩ := Prod.mk.inj locked
    refine .inr ⟨rfl, place, .ofList (digitChars c.process), target,
      attempted.trans (.putAt (text_ne_directory _) file), ?_⟩
    rw [entryAt?_putAt _ _ _ (ne_nil_of_isDirectoryAt file), if_pos rfl]
  · next c _ shape =>
    rw [shape] at attempted
    obtain ⟨rfl, rfl⟩ := Prod.mk.inj locked
    exact .inl ⟨_, rfl, by simp, attempted⟩

/-- A lock that was made where nothing stood is taken away again, and all is as it was. -/
theorem agreesExcept_unlock {place : Place} {owner : String}
    (led : d.place? (lockPath path) = some place) (free : d.entryAt? place = none)
    (agrees : AgreesExcept [place] d e) (held : e.entryAt? place = some (.text owner)) :
    AgreesExcept [] d (e.unlock path).2 := by
  obtain ⟨last, unlocked, removed, vacant⟩ := exists_unlock ((agrees.place?_eq _).trans led) held
  have whole := agrees.trans removed
  rw [unlocked]
  refine { whole with entries := ?_ }
  intro other _
  by_cases same : other = place
  · rw [same, vacant, free]
  · exact whole.entries other (by simp [same])

/-- A context that cannot be loaded is not said to be locked. -/
theorem ne_locked_of_load {refusal : ContextError} (failed : load d path scope = .error refusal)
    (owner : Option Nat) : refusal ≠ .storage (.locked path owner) := by
  rw [load] at failed
  split at failed
  case isFalse => cases failed
  split at failed
  · obtain rfl := Except.error.inj failed
    simp
  split at failed
  · obtain rfl := Except.error.inj failed
    simp
  split at failed
  · obtain rfl := Except.error.inj failed
    simp
  · obtain ⟨name, rfl⟩ := Memory.exists_variableExists_of_createAll failed
    simp

/-- Only where no directory stands can variables be loaded. -/
theorem entry?_ne_directory_of_load {m : Memory} (loaded : load d path scope = .ok m) :
    d.entry? path ≠ some .directory := by
  intro directory
  simp [load, Disk.holds, read?, directory] at loaded

/-- The variables at a path are loaded into a context of the scope that is asked for. -/
theorem scope_of_load {m : Memory} (loaded : load d path scope = .ok m) : m.scope = scope := by
  rw [load] at loaded
  split at loaded
  case isFalse =>
    obtain rfl := Except.ok.inj loaded
    rfl
  split at loaded
  · cases loaded
  split at loaded
  · cases loaded
  split at loaded
  · cases loaded
  · next s _ own =>
    simp only [ne_eq, Decidable.not_not] at own
    rw [← own]
    exact (Memory.createAll_eq_ok_iff.mp loaded).2.1

/-- Everything that opening can do: the lock is held, or it fails otherwise and all is as it was, or
the context has the variables at the path and is locked. -/
theorem openAt_cases {answer : Except ContextError FileContext}
    (opened : openAt d path scope = (answer, e)) :
    (d.holds (lockPath path) = true ∧
      answer = .error (.storage (.locked path (d.lockOwner? path))) ∧ e = d) ∨
    d.holds (lockPath path) = false ∧
      ((∃ refusal, answer = .error refusal ∧ (∀ owner, refusal ≠ .storage (.locked path owner)) ∧
        AgreesExcept [] d e) ∨
      ∃ m here name owner, answer = .ok ⟨path, m⟩ ∧ load d path scope = .ok m ∧
        d.Site path here name ∧ AgreesExcept [(name ++ ".lock") :: here] d e ∧
        e.entryAt? ((name ++ ".lock") :: here) = some (.text owner)) := by
  rw [openAt] at opened
  rcases locked : d.lock path with ⟨got, c⟩
  rw [locked] at opened
  rcases lock_cases locked with ⟨held, rfl, rfl⟩ | ⟨free, ⟨fault, rfl, other, same⟩ |
    ⟨rfl, place, owner, target, agrees, held⟩⟩
  · obtain ⟨rfl, rfl⟩ := Prod.mk.inj opened
    exact .inl ⟨held, rfl, rfl⟩
  · obtain ⟨rfl, rfl⟩ := Prod.mk.inj opened
    refine .inr ⟨free, .inl ⟨_, rfl, ?_, same⟩⟩
    intro owner locked
    exact other owner (ContextError.storage.inj locked)
  · refine .inr ⟨free, ?_⟩
    have led := (target?_eq_some_iff.mp target).1
    cases loaded : load c path scope with
    | error refusal =>
      simp only [loaded, Prod.mk.injEq] at opened
      obtain ⟨rfl, rfl⟩ := opened
      have vacant : d.entryAt? place = none := by
        simpa [Disk.holds, entry?_eq_entryAt? led] using free
      exact .inl
        ⟨refusal, rfl, ne_locked_of_load loaded, agreesExcept_unlock led vacant agrees held⟩
    | ok m =>
      simp only [loaded, Prod.mk.injEq] at opened
      obtain ⟨rfl, rfl⟩ := opened
      have noDirectory : d.entry? path ≠ some .directory := by
        intro directory
        exact entry?_ne_directory_of_load loaded ((agrees.entry?_directory_iff path).mpr directory)
      obtain ⟨here, name, site, rfl⟩ := exists_site target noDirectory
      rw [load_congr (agrees.entry?_eq site.file (file_not_mem (by decide)))] at loaded
      exact .inr ⟨m, here, name, owner, rfl, loaded, site, agrees, held⟩

/-- A path whose lock is free can be locked again as long as writes work. -/
theorem exists_lock (site : d.Site path here name) (reliable : d.attempts = [])
    (free : d.entryAt? ((name ++ ".lock") :: here) = none) :
    ∃ e, d.lock path = (.ok (), e) ∧ AgreesExcept [(name ++ ".lock") :: here] d e := by
  have notHeld : d.holds (lockPath path) = false := by
    simp [Disk.holds, entry?_eq_entryAt? site.lock, free]
  have noZero : Path.hasZero path = false := by
    have led := site.lock
    rw [place?] at led
    split at led
    · next follows =>
      simp only [Path.canFollow, Path.hasZero, lockPath, Bool.and_eq_true, Bool.not_eq_true',
        String.toList_append, List.contains_eq_mem, List.mem_append, decide_eq_false_iff_not,
        not_or] at follows ⊢
      exact follows.2.1
    · simp at led
  have file : d.isDirectoryAt ((name ++ ".lock") :: here) = false := by
    simp [isDirectoryAt, free]
  have target : d.target? (lockPath path) = some ((name ++ ".lock") :: here) := by
    refine target?_eq_some_iff.mpr ⟨site.lock, ?_⟩
    simp only [admitsTextAt, Path.canName, site.short, file, decide_true, Bool.not_false,
      Bool.and_self]
  refine ⟨d.putAt _ (.text (.ofList (digitChars d.process))), ?_, .putAt (text_ne_directory _) file⟩
  simp [lock, notHeld, noZero, target, nextAttempt, reliable]

/-- At a path where nothing stands, a context is opened without variables. -/
theorem exists_kept (opened : openAt d path scope = (.ok f, e)) (vacant : d.holds path = false) :
    ∃ here name, f.Kept e here name ∧ AgreesExcept [(name ++ ".lock") :: here] d e ∧
      f.path = path ∧ f.memory = .empty scope := by
  have empty : d.entry? path = none := by simpa [Disk.holds] using vacant
  rcases openAt_cases opened with ⟨-, failed, -⟩ | ⟨-, ⟨_, failed, -, -⟩ |
    ⟨m, here, name, owner, made, loaded, site, agrees, held⟩⟩
  · cases failed
  · cases failed
  · obtain rfl := Except.ok.inj made
    rw [load_of_vacant scope empty] at loaded
    obtain rfl := Except.ok.inj loaded
    refine ⟨here, name, ⟨agrees.site site, ⟨owner, held⟩, .inl ⟨?_, rfl⟩⟩, agrees, rfl, rfl⟩
    rwa [agrees.entries _ (file_not_mem (by decide)), ← entry?_eq_entryAt? site.file]

/-- A free path opens if its variables can be loaded. -/
theorem openAt_eq_load (scope : Scope) (site : d.Site path here name) (reliable : d.attempts = [])
    (free : d.entryAt? ((name ++ ".lock") :: here) = none) :
    (openAt d path scope).1 = (load d path scope).map (FileContext.mk path) := by
  obtain ⟨e, locked, agrees⟩ := exists_lock site reliable free
  have same : load e path scope = load d path scope :=
    load_congr (agrees.entry?_eq site.file (file_not_mem (by decide)))
  rw [openAt, locked]
  simp only [same]
  cases load d path scope <;> rfl

/-- The text of a snapshot loads as the same variables exactly if their values are durable. -/
theorem load_snapshot_iff {m : Memory} {stamp : Stamp}
    (held : d.entry? path = some (.text (m.snapshot stamp).toText))
    (clock : stamp.takenAt.isValid = true) :
    (∃ n, load d path m.scope = .ok n ∧ n.list = m.list) ↔
      ∀ v ∈ m.list, v.value.isDurable = true := by
  have version : (m.snapshot stamp).version < 2 ^ 32 := show 1 < 2 ^ 32 by decide
  have time := Timestamp.ofString?_text clock
  have valid := m.validate_snapshot stamp
  have readsBack := Snapshot.ofText_toText_eq_self_iff version time
  simp only [load_eq_ok_iff held]
  constructor
  · rintro ⟨n, ⟨s, decoded, -, restored⟩, same⟩
    obtain ⟨frame, checked, -⟩ := (Snapshot.ofText_toText_eq_ok_iff version time).mp decoded
    obtain ⟨-, vars⟩ := (Memory.ofSnapshot_eq_ok_iff checked).mp restored
    -- Only the variables could have changed, and they have not.
    have whole : s = m.snapshot stamp := by
      rw [frame, ← vars, same]
      rfl
    rw [whole] at decoded
    exact (readsBack.mp decoded).2
  · intro durable
    have decoded := readsBack.mpr ⟨valid, durable⟩
    exact ⟨m, ⟨m.snapshot stamp, decoded, rfl, m.ofSnapshot_snapshot stamp⟩, rfl⟩

/-- An open context that is closed is opened again with the same variables exactly if their values
are durable. -/
theorem Kept.restores_iff (kept : f.Kept d here name) (reliable : d.attempts = [])
    (clock : ∀ n, (d.stamps n).takenAt.isValid = true) :
    ∃ e, f.close d = (.ok (), e) ∧
      ((∃ g, (openAt e f.path f.memory.scope).1 = .ok g ∧ g.memory.list = f.memory.list) ↔
        ∀ v ∈ f.memory.list, v.value.isDurable = true) := by
  obtain ⟨e, closed, agrees, free⟩ := kept.close
  have site := agrees.site kept.site
  have opens := openAt_eq_load f.memory.scope site (by simpa [reliable] using agrees.attempts) free
  have stands : e.entry? f.path = d.entryAt? (name :: here) := by
    rw [entry?_eq_entryAt? site.file, agrees.entries _ (file_not_mem (by decide))]
  -- What is opened is what is loaded.
  have reopened :
      (∃ g, (openAt e f.path f.memory.scope).1 = .ok g ∧ g.memory.list = f.memory.list) ↔
        ∃ m, load e f.path f.memory.scope = .ok m ∧ m.list = f.memory.list := by
    rw [opens]
    cases load e f.path f.memory.scope <;> simp [Except.map]
  refine ⟨e, closed, reopened.trans ?_⟩
  rcases kept.kept with ⟨nothing, empty⟩ | ⟨n, text⟩
  · have loaded := load_of_vacant f.memory.scope (stands.trans nothing)
    have bare : f.memory.list = [] := by
      rw [empty]
      rfl
    constructor
    · intro _ v member
      simp [bare] at member
    · intro _
      refine ⟨_, loaded, ?_⟩
      rw [bare]
      rfl
  · exact load_snapshot_iff (stands.trans text) (clock n)

/-- A context that was opened where nothing stood, changed in any way and closed, is opened again
with the same variables exactly if their values are durable. -/
theorem reopens_iff (changes : List Change) {d₀ d₁ : Disk} (reliable : d.attempts = [])
    (clock : ∀ n, (d.stamps n).takenAt.isValid = true) (vacant : d.holds path = false)
    (opened : openAt d path scope = (.ok f, d₀)) (ran : f.changeAll changes d₀ = (g, d₁)) :
    ∃ d₂, g.close d₁ = (.ok (), d₂) ∧
      ((∃ h, (openAt d₂ path scope).1 = .ok h ∧ h.memory.list = g.memory.list) ↔
        ∀ v ∈ g.memory.list, v.value.isDurable = true) := by
  obtain ⟨here, name, kept, agreesOpen, rfl, fresh⟩ := exists_kept opened vacant
  obtain ⟨kept, agreesRun, samePath, sameScope⟩ := kept.changeAll ran
  have whole := agreesOpen.trans agreesRun
  obtain rfl : g.memory.scope = scope := by rw [sameScope, fresh, Memory.empty]
  rw [← samePath]
  exact kept.restores_iff (by simpa [reliable] using whole.attempts) (whole.stamps ▸ clock)

/-- A disk on which there is nothing, under a clock that stands. -/
def vacantDisk : Disk := .blank 1 fun _ => ⟨⟨0⟩, ⟨⟨2024, 1, 2⟩, 11045, 0⟩⟩

/-- That disk while a context is open and has not been changed. -/
def lockedDisk : Disk :=
  { vacantDisk with entries := [(["ctx.json.lock"], .text (.ofList (digitChars 1)))] }

private theorem opened_vacantDisk : openAt vacantDisk "ctx.json" .persistent =
    (.ok ⟨"ctx.json", .empty .persistent⟩, lockedDisk) := rfl

theorem reopens_integer : ∃ f g d₁ d₂ h,
    openAt vacantDisk "ctx.json" .persistent = (.ok f, lockedDisk) ∧
      f.changeAll [.create "x" (.integer 1)] lockedDisk = (g, d₁) ∧ g.close d₁ = (.ok (), d₂) ∧
      (openAt d₂ "ctx.json" .persistent).1 = .ok h ∧
      h.memory.list = [⟨"x", .integer 1, .persistent⟩] := by
  let changes := [Change.create "x" (.integer 1)]
  have list : (changeAll ⟨"ctx.json", .empty .persistent⟩ changes lockedDisk).1.memory.list =
      [⟨"x", .integer 1, .persistent⟩] := by decide +kernel
  have clock : Timestamp.isValid ⟨⟨2024, 1, 2⟩, 11045, 0⟩ = true := by decide
  rcases ran : changeAll ⟨"ctx.json", .empty .persistent⟩ changes lockedDisk with ⟨g, d₁⟩
  rw [ran] at list
  obtain ⟨d₂, closed, restored⟩ := reopens_iff changes rfl (fun _ => clock) (by decide +kernel)
    opened_vacantDisk ran
  obtain ⟨h, reopened, same⟩ := restored.mpr (by rw [list]; decide)
  exact ⟨_, g, d₁, d₂, h, opened_vacantDisk, ran, closed, reopened, same.trans list⟩

/-- An infinity is created, and the context is not restored from its file. -/
theorem not_reopens_infinity : ∃ f g d₁ d₂,
    openAt vacantDisk "ctx.json" .persistent = (.ok f, lockedDisk) ∧
      f.change (.create "x" (.float (.infinity false))) lockedDisk = (.ok (), g, d₁) ∧
      g.memory.list = [⟨"x", .float (.infinity false), .persistent⟩] ∧
      g.close d₁ = (.ok (), d₂) ∧
      ¬ ∃ h, (openAt d₂ "ctx.json" .persistent).1 = .ok h ∧ h.memory.list = g.memory.list := by
  let c := Change.create "x" (.float (.infinity false))
  have made : (match change ⟨"ctx.json", .empty .persistent⟩ c lockedDisk with
      | (.ok (), g, _) => decide (g.memory.list = [⟨"x", .float (.infinity false), .persistent⟩])
      | _ => false) = true := by decide +kernel
  split at made
  next g d₁ changed =>
    have list := of_decide_eq_true made
    obtain ⟨here, name, kept, opening, -, -⟩ := exists_kept opened_vacantDisk (by decide +kernel)
    obtain ⟨kept, changing, path, scope⟩ := kept.change changed
    have clock : Timestamp.isValid ⟨⟨2024, 1, 2⟩, 11045, 0⟩ = true := by decide
    obtain ⟨d₂, closed, restored⟩ := kept.restores_iff
      (List.suffix_nil.mp (changing.attempts.trans opening.attempts))
      ((changing.stamps.trans opening.stamps) ▸ fun _ => clock)
    rw [path, scope] at restored
    refine ⟨_, g, d₁, d₂, opened_vacantDisk, changed, list, closed, ?_⟩
    intro again
    have durable := restored.mp again
    rw [list] at durable
    exact absurd (durable _ List.mem_cons_self) (by decide)
  · cases made

end FileContext

end StateMachines
