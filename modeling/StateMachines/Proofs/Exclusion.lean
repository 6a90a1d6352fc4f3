import StateMachines.Proofs.Locking
import StateMachines.Workspace

/-! # Exclusive use of paths

Contexts come and go under names over one disk, and files are put at their paths by others. As long
as the paths are kept apart, each is used by one context at a time: it is locked exactly while it is
in use, and a request is seen only at the paths that it concerns. Spelling the path of one file in
two ways does not keep them apart.
-/

namespace StateMachines

namespace Workspace

open Disk

variable {v w : Workspace} {name path : String} {paths : Set String}

/-- The path of the context under a name. -/
def pathOf? (w : Workspace) (name : String) : Option String :=
  (w.contexts.get? name).bind Context.path?

/-- The paths at which contexts are in use. -/
def live (w : Workspace) : Set String := {path | ∃ name, w.pathOf? name = some path}

/-- Each path has one context in use at most. -/
def IsSingle (w : Workspace) : Prop :=
  ∀ ⦃name other path⦄, w.pathOf? name = some path → w.pathOf? other = some path → name = other

/-! ## Requests -/

/-- What is asked of contexts in files, and that someone else puts a file where a path leads. -/
inductive Request
  | supply (path : String) (contents : Disk.Entry)
  | openAt (name path : String) (scope : Scope)
  | change (name : String) (c : Change)
  | close (name : String)
  | drop (name : String)

/-- No other paths are asked for, and no directories are put there. -/
def Request.IsWithin (paths : Set String) : Request → Prop
  | supply path contents => path ∈ paths ∧ contents ≠ .directory
  | openAt _ path _ => path ∈ paths
  | change _ _ | close _ | drop _ => True

/-- The request is about the path, or about the context at the path; a context is given up when
another one has been opened under its name. -/
def Request.Concerns (w : Workspace) (path : String) : Request → Prop
  | supply asked _ => asked = path
  | openAt name asked scope =>
    asked = path ∨ (w.openAt name asked scope).1 = .ok () ∧ w.pathOf? name = some path
  | change name _ | close name | drop name => w.pathOf? name = some path

/-- The workspace after a request, whatever it answers. -/
def perform (w : Workspace) : Request → Workspace
  | .supply path contents => { w with disk := w.disk.supply path contents }
  | .openAt name path scope => (w.openAt name path scope).2
  | .change name c => (w.change name c).2
  | .close name => (w.close name).2
  | .drop name => w.drop name

/-- The workspace after some requests in order. -/
def performAll (w : Workspace) (requests : List Request) : Workspace := requests.foldl perform w

/-- Each path has one context in use at most. It is locked while it has one and only then; then, and
only then, opening it fails because it is locked, and changes nothing. When it is opened it is in
use, and if opening fails for another reason it is not locked afterwards. No request changes what
stands at a path that it does not concern, or at its lock. -/
structure IsExclusive (w : Workspace) (paths : Set String) : Prop where
  single : w.IsSingle
  locked_iff : ∀ path ∈ paths, w.disk.holds (lockPath path) = true ↔ path ∈ w.live
  refused_iff : ∀ path ∈ paths, ∀ name scope,
    (∃ owner, (w.openAt name path scope).1 = .error (.storage (.locked path owner))) ↔
      path ∈ w.live
  refused : ∀ path ∈ paths, path ∈ w.live → ∀ name scope, (w.openAt name path scope).2 = w
  opened : ∀ path ∈ paths, ∀ name scope, (w.openAt name path scope).1 = .ok () →
    (w.openAt name path scope).2.pathOf? name = some path
  failed : ∀ path ∈ paths, ∀ name scope refusal, (w.openAt name path scope).1 = .error refusal →
    (∀ owner, refusal ≠ .storage (.locked path owner)) →
      (w.openAt name path scope).2.disk.holds (lockPath path) = false
  spares : ∀ path ∈ paths, ∀ request : Request, request.IsWithin paths →
    ¬ request.Concerns w path → Spares path w.disk (w.perform request).disk

/-! ## Contexts under names -/

theorem release_eq (d : Disk) (c : Context) : release d c = d.giveUp c.path? := by
  cases c <;> rfl

theorem keep_eq (w : Workspace) (name : String) (c : Context) :
    w.keep name c = ⟨w.contexts.set name c, w.disk.giveUp (w.pathOf? name)⟩ := by
  rw [keep, pathOf?]
  cases w.contexts.get? name with
  | none => rfl
  | some old => simp [release_eq]

theorem close_eq (w : Workspace) (name : String) :
    (w.close name).2 = ⟨w.contexts.erase name, w.disk.giveUp (w.pathOf? name)⟩ := by
  rw [close, pathOf?]
  cases w.contexts.get? name with
  | none => rfl
  | some c => cases c <;> rfl

/-- Giving up a context is closing it, whatever that answers. -/
theorem drop_eq (w : Workspace) (name : String) : w.drop name = (w.close name).2 := by
  rw [close_eq, drop, pathOf?]
  cases found : w.contexts.get? name with
  | none =>
    rw [Table.erase_of_not_mem ((w.contexts.get?_eq_none_iff name).mp found)]
    rfl
  | some c => simp [release_eq]

theorem pathOf?_change (w : Workspace) (name : String) (c : Change) :
    (w.change name c).2.pathOf? = w.pathOf? := by
  rw [change]
  cases found : w.contexts.get? name with
  | none => rfl
  | some old =>
    funext other
    simp only [pathOf?, Table.get?_set]
    split
    · next same => simp [same, found, Context.path?_change]
    · rfl

/-- In one workspace there is what is in the other, but for one name. -/
def Replaces (v w : Workspace) (name : String) (new? : Option String) : Prop :=
  ∀ other, v.pathOf? other = if other = name then new? else w.pathOf? other

theorem replaces_keep (w : Workspace) (name : String) (c : Context) :
    Replaces (w.keep name c) w name c.path? := by
  intro other
  simp only [keep_eq, pathOf?, Table.get?_set]
  split <;> rfl

theorem replaces_close (w : Workspace) (name : String) :
    Replaces (w.close name).2 w name none := by
  intro other
  simp only [close_eq, pathOf?, Table.get?_erase]
  split <;> rfl

section Replaces

variable {new? : Option String} (single : w.IsSingle) (replaces : v.Replaces w name new?)
  (fresh : ∀ path, new? = some path → path ∉ w.live)

include single replaces fresh

theorem IsSingle.of_replaces : v.IsSingle := by
  intro first second path atFirst atSecond
  rw [replaces] at atFirst atSecond
  split at atFirst <;> split at atSecond
  · simp [*]
  · exact absurd ⟨second, atSecond⟩ (fresh path atFirst)
  · exact absurd ⟨first, atFirst⟩ (fresh path atSecond)
  · exact single atFirst atSecond

/-- The path of a context that is replaced is not in use any more, and that of the new one is. -/
theorem IsSingle.live_of_replaces :
    v.live = {path | (new? = some path ∨ path ∈ w.live) ∧ w.pathOf? name ≠ some path} := by
  ext path
  simp only [live, Set.mem_ofPred_eq, replaces _]
  constructor
  · rintro ⟨other, held⟩
    split at held
    · exact ⟨.inl held, fun old => fresh path held ⟨name, old⟩⟩
    · next differs =>
      refine ⟨.inr ⟨other, held⟩, ?_⟩
      intro old
      exact differs (single held old)
  · rintro ⟨new | ⟨other, held⟩, old⟩
    · exact ⟨name, by simp [new]⟩
    · refine ⟨other, ?_⟩
      rw [if_neg]
      · exact held
      · rintro rfl
        exact old held

end Replaces

/-! ## One request -/

/-- Each path has one context at most, and of the paths that are kept apart the ones in use are
locked, and no others. -/
structure IsGuarded (w : Workspace) (paths : Set String) : Prop where
  single : w.IsSingle
  guards : w.disk.Guards paths w.live

namespace IsGuarded

theorem openAt (guarded : w.IsGuarded paths) (member : path ∈ paths) (name : String)
    (scope : Scope) : (w.openAt name path scope).2.IsGuarded paths ∧
      ∀ p ∈ paths, ¬ (Request.openAt name path scope).Concerns w p →
        Spares p w.disk (w.openAt name path scope).2.disk := by
  simp only [Request.Concerns, not_or, not_and]
  rcases opened : FileContext.openAt w.disk path scope with ⟨answer, d⟩
  rw [Workspace.openAt, opened]
  rcases guarded.guards.openAt member opened with
    ⟨-, rfl, rfl⟩ | ⟨unused, spares, ⟨refusal, rfl, -, guards⟩ | ⟨m, rfl, guards⟩⟩
  · exact ⟨guarded, fun p _ _ => .refl p w.disk⟩
  · exact ⟨⟨guarded.single, guards⟩, fun p among other => spares p among (Ne.symm other.1)⟩
  · -- The context that was under the name is given up when the new one is open.
    have replaces : Replaces ({ w with disk := d }.keep name (.file ⟨path, m⟩)) w name
        (some path) := replaces_keep { w with disk := d } name (.file ⟨path, m⟩)
    have fresh (p : String) (new : some path = some p) : p ∉ w.live :=
      Option.some.inj new ▸ unused
    have inUse (p : String) (old : w.pathOf? name = some p) : p ∈ insert path w.live :=
      .inr ⟨name, old⟩
    obtain ⟨given, sparesOld⟩ := guards.giveUp inUse
    have used : {p | (some path = some p ∨ p ∈ w.live) ∧ w.pathOf? name ≠ some p} =
        {p | p ∈ insert path w.live ∧ w.pathOf? name ≠ some p} := by
      ext p
      simp [eq_comm]
    rw [keep_eq] at replaces
    simp only [keep_eq]
    refine ⟨⟨guarded.single.of_replaces replaces fresh, ?_⟩, ?_⟩
    · rw [guarded.single.live_of_replaces replaces fresh, used]
      exact given
    · intro p among other
      exact (spares p among (Ne.symm other.1)).trans (sparesOld p among (other.2 trivial))

theorem close (guarded : w.IsGuarded paths) (name : String) :
    (w.close name).2.IsGuarded paths ∧
      ∀ p ∈ paths, w.pathOf? name ≠ some p → Spares p w.disk (w.close name).2.disk := by
  have replaces := replaces_close w name
  have inUse (p : String) (old : w.pathOf? name = some p) : p ∈ w.live := ⟨name, old⟩
  obtain ⟨given, spares⟩ := guarded.guards.giveUp inUse
  refine ⟨⟨guarded.single.of_replaces replaces (by simp), ?_⟩, ?_⟩
  · rw [guarded.single.live_of_replaces replaces (by simp), close_eq]
    simpa using given
  · rwa [close_eq]

theorem change (guarded : w.IsGuarded paths) (name : String) (c : Change) :
    (w.change name c).2.IsGuarded paths ∧
      ∀ p ∈ paths, w.pathOf? name ≠ some p → Spares p w.disk (w.change name c).2.disk := by
  have sameLive : (w.change name c).2.live = w.live := by
    simp only [live, pathOf?_change]
  have single : (w.change name c).2.IsSingle := by
    simpa only [IsSingle, pathOf?_change] using guarded.single
  have disk : (w.change name c).2.disk.Guards paths w.live ∧
      ∀ p ∈ paths, w.pathOf? name ≠ some p → Spares p w.disk (w.change name c).2.disk := by
    rw [Workspace.change]
    cases found : w.contexts.get? name with
    | none => exact ⟨guarded.guards, fun p _ _ => .refl p w.disk⟩
    | some old =>
      have path : w.pathOf? name = old.path? := by simp [pathOf?, found]
      rw [path]
      exact guarded.guards.change (fun p held => ⟨name, path.trans held⟩) c
  exact ⟨⟨single, sameLive ▸ disk.1⟩, disk.2⟩

/-- A request within the paths keeps the locks in order, and is seen only at the paths that it
concerns. -/
theorem perform (guarded : w.IsGuarded paths) {request : Request}
    (within : request.IsWithin paths) : (w.perform request).IsGuarded paths ∧
      ∀ p ∈ paths, ¬ request.Concerns w p → Spares p w.disk (w.perform request).disk := by
  cases request with
  | supply path contents =>
    obtain ⟨member, plain⟩ := within
    obtain ⟨guards, spares⟩ := guarded.guards.supply member plain
    exact ⟨⟨guarded.single, guards⟩, fun p among other => spares p among (Ne.symm other)⟩
  | openAt name path scope => exact guarded.openAt within name scope
  | change name c => exact guarded.change name c
  | close name => exact guarded.close name
  | drop name =>
    rw [Workspace.perform, drop_eq]
    exact guarded.close name

/-- Where the locks are in order, each path is used by one context at a time. -/
theorem isExclusive (guarded : w.IsGuarded paths) : w.IsExclusive paths where
  single := guarded.single
  locked_iff path member := guarded.guards.holds_iff member
  refused_iff path member name scope := by
    rcases opened : FileContext.openAt w.disk path scope with ⟨answer, d⟩
    rw [Workspace.openAt, opened]
    rcases guarded.guards.openAt member opened with
      ⟨used, rfl, rfl⟩ | ⟨unused, -, ⟨refusal, rfl, other, -⟩ | ⟨m, rfl, -⟩⟩
    · simp [used]
    · simp [unused, other]
    · simp [unused]
  refused path member used name scope := by
    rcases opened : FileContext.openAt w.disk path scope with ⟨answer, d⟩
    rw [Workspace.openAt, opened]
    rcases guarded.guards.openAt member opened with ⟨-, rfl, rfl⟩ | ⟨unused, -⟩
    · rfl
    · exact absurd used unused
  opened path member name scope success := by
    rcases opened : FileContext.openAt w.disk path scope with ⟨answer, d⟩
    rw [Workspace.openAt, opened] at success ⊢
    rcases guarded.guards.openAt member opened with
      ⟨-, rfl, rfl⟩ | ⟨-, -, ⟨refusal, rfl, -, -⟩ | ⟨m, rfl, -⟩⟩
    · cases success
    · cases success
    · have replaces := replaces_keep { w with disk := d } name (.file ⟨path, m⟩) name
      rwa [if_pos rfl] at replaces
  failed path member name scope refusal failed other := by
    rcases opened : FileContext.openAt w.disk path scope with ⟨answer, d⟩
    rw [Workspace.openAt, opened] at failed ⊢
    rcases guarded.guards.openAt member opened with
      ⟨-, rfl, rfl⟩ | ⟨unused, -, ⟨_, rfl, -, guards⟩ | ⟨m, rfl, -⟩⟩
    · exact absurd (Except.error.inj failed).symm (other _)
    · rw [← Bool.not_eq_true, guards.holds_iff member]
      exact unused
    · cases failed
  spares path member request within other := (guarded.perform within).2 path member other

end IsGuarded

/-! ## Any number of requests -/

/-- Before anything is opened no path is in use. -/
theorem isGuarded_empty {d : Disk} (apart : d.KeepsApart paths)
    (free : ∀ path ∈ paths, d.holds (lockPath path) = false) :
    IsGuarded ⟨.empty, d⟩ paths where
  single name other path held := by simp [pathOf?] at held
  guards := by
    have unused (path : String) : path ∉ Workspace.live ⟨.empty, d⟩ := by
      rintro ⟨name, held⟩
      simp [pathOf?] at held
    exact ⟨apart, fun path used => absurd used (unused path),
      fun path member => .inr ⟨unused path, free path member⟩⟩

theorem IsGuarded.performAll (guarded : w.IsGuarded paths) {requests : List Request}
    (within : ∀ request ∈ requests, request.IsWithin paths) :
    (w.performAll requests).IsGuarded paths := by
  induction requests generalizing w with
  | nil => exact guarded
  | cons request rest ih =>
    have next := (guarded.perform (within request List.mem_cons_self)).1
    exact ih next fun later member => within later (List.mem_cons_of_mem request member)

/-- Contexts of paths that are kept apart are used exclusively, after any requests that begin where
nothing is locked. -/
theorem exclusive_after_requests {d : Disk} {paths : Set String} {requests : List Request}
    (apart : d.KeepsApart paths) (free : ∀ path ∈ paths, d.holds (lockPath path) = false)
    (within : ∀ request ∈ requests, request.IsWithin paths) :
    (performAll ⟨.empty, d⟩ requests).IsExclusive paths :=
  ((isGuarded_empty apart free).performAll within).isExclusive

/-- Two paths, of which one is opened and changed, and the other holds no snapshot. -/
def twoRequests : List Request :=
  [.supply "b.json" (.text "?"), .openAt "f" "a.json" .persistent,
    .openAt "g" "b.json" .persistent, .openAt "g" "a.json" .persistent,
    .change "f" (.create "x" .null)]

theorem exclusive_after_two_requests :
    let w := performAll ⟨.empty, FileContext.vacantDisk⟩ twoRequests
    w.IsExclusive {"a.json", "b.json"} ∧ w.pathOf? "f" = some "a.json" ∧ w.pathOf? "g" = none := by
  have apart : FileContext.vacantDisk.KeepsApart {"a.json", "b.json"} := by
    have ledFirst : FileContext.vacantDisk.place? "a.json" = some ["a.json"] := by decide +kernel
    have ledSecond : FileContext.vacantDisk.place? "b.json" = some ["b.json"] := by decide +kernel
    rintro p (rfl | rfl) q (rfl | rfl) other place led -
    · exact absurd rfl other
    · obtain rfl := Option.some.inj (ledFirst.symm.trans led)
      decide +kernel
    · obtain rfl := Option.some.inj (ledSecond.symm.trans led)
      decide +kernel
    · exact absurd rfl other
  have free : ∀ path ∈ ({"a.json", "b.json"} : Set String),
      FileContext.vacantDisk.holds (lockPath path) = false := by
    rintro path (rfl | rfl) <;> decide +kernel
  have within : ∀ request ∈ twoRequests, request.IsWithin {"a.json", "b.json"} := by
    simp [twoRequests, Request.IsWithin]
  exact ⟨exclusive_after_requests apart free within, by decide +kernel, by decide +kernel⟩

/-- A disk with a directory that a path can go through. -/
def folderDisk : Disk := { FileContext.vacantDisk with entries := [(["sub"], .directory)] }

/-- While a file is in use under one spelling of its path it is locked under the other one as well,
where no context is in use. -/
theorem not_exclusive_two_spellings :
    let paths : Set String := {"ctx.json", "sub/../ctx.json"}
    let requests := [Request.openAt "f" "ctx.json" .persistent]
    (∀ p ∈ paths, ∀ q ∈ paths, p ≠ lockPath q ∧ p ≠ stagingPath q) ∧
      (∀ path ∈ paths, folderDisk.holds (lockPath path) = false) ∧
      (∀ request ∈ requests, request.IsWithin paths) ∧
      ¬ (performAll ⟨.empty, folderDisk⟩ requests).IsExclusive paths := by
  intro paths requests
  refine ⟨?_, ?_, ?_, ?_⟩
  · rintro p (rfl | rfl) q (rfl | rfl) <;> decide
  · rintro path (rfl | rfl) <;> decide +kernel
  · simp [requests, paths, Request.IsWithin]
  · intro exclusive
    have locked : (performAll ⟨.empty, folderDisk⟩ requests).disk.holds
      (lockPath "sub/../ctx.json") = true := by decide +kernel
    obtain ⟨name, held⟩ := (exclusive.locked_iff "sub/../ctx.json" (by simp [paths])).mp locked
    have names : (performAll ⟨.empty, folderDisk⟩ requests).contexts.names = ["f"] := by
      decide +kernel
    by_cases opened : name = "f"
    · subst opened
      exact absurd held (by decide +kernel)
    · have absent : (performAll ⟨.empty, folderDisk⟩ requests).contexts.get? name = none := by
        rw [Table.get?_eq_none_iff, names]
        simpa using opened
      simp [pathOf?, absent] at held

end Workspace

end StateMachines
