import StateMachines.Proofs.Durability

/-! # Changes are written through

A context in a file is a context in memory whose file follows it. Of the writes and renames of a
run any may fail, and then the change that asked for them is not made: neither the variables nor the
file show it. So the variables are always those that the changes which were made give in memory, and
the file holds them, or what it held before if none was made.
-/

namespace StateMachines

/-- The disk takes a text at a path: it can be written beside the path and moved there. -/
def Disk.takes (d : Disk) (path contents : String) : Bool :=
  match d.write (stagingPath path) contents with
  | (true, e) => (e.rename (stagingPath path) path).1
  | (false, _) => false

namespace FileContext

open Disk

variable {d e : Disk} {path name : String} {scope : Scope} {here : Place} {f g : FileContext}

/-! ## One change -/

/-- The text of a snapshot of variables with the next stamp. -/
def nextText (d : Disk) (next : Memory) : String := (next.snapshot d.takeStamp.1).toText

/-- Variables are kept if the disk takes their text. -/
theorem persist_fst (d : Disk) (path : String) (next : Memory) :
    (persist d path next).1 = d.takeStamp.2.takes path (nextText d next) := by
  simp only [persist, takes, nextText]
  rcases d.takeStamp.2.write (stagingPath path) (next.snapshot d.takeStamp.1).toText with ⟨_ | _, e⟩
  · rfl
  · rfl

/-- What each change does next to a context on a disk: one that the variables do not admit is
refused as in memory, and nothing is touched; one whose text the disk does not take fails, and the
variables and the file stay; any other is made, and the file holds the new variables. -/
structure WritesThrough (f : FileContext) (d : Disk) : Prop where
  refused : ∀ {c : Change} {refusal : ContextError}, f.memory.change c = .error refusal →
    f.change c d = (.error refusal, f, d)
  failed : ∀ {c : Change} {next : Memory}, f.memory.change c = .ok next →
    d.takeStamp.2.takes f.path (nextText d next) = false →
      ∃ e, f.change c d = (.error (.storage .disk), f, e) ∧ e.entry? f.path = d.entry? f.path
  made : ∀ {c : Change} {next : Memory}, f.memory.change c = .ok next →
    d.takeStamp.2.takes f.path (nextText d next) = true →
      ∃ e, f.change c d = (.ok (), { f with memory := next }, e) ∧
        e.entry? f.path = some (.text (nextText d next))

/-- A context whose path leads to a file writes through. -/
theorem writesThrough (site : d.Site f.path here name) : f.WritesThrough d where
  refused planned := by simp [change, planned]
  failed {c next} planned untaken := by
    rcases done : persist d f.path next with ⟨works, e⟩
    have answer := persist_fst d f.path next
    rw [done, untaken] at answer
    rcases persist_cases site done with ⟨rfl, agrees⟩ | ⟨rfl, -, -⟩
    · exact ⟨e, by simp [change, planned, done],
        agrees.entry?_eq site.file (file_not_mem (by decide))⟩
    · cases answer
  made {c next} planned taken := by
    rcases done : persist d f.path next with ⟨works, e⟩
    have answer := persist_fst d f.path next
    rw [done, taken] at answer
    rcases persist_cases site done with ⟨rfl, -⟩ | ⟨rfl, agrees, text⟩
    · cases answer
    · refine ⟨e, by simp [change, planned, done], ?_⟩
      rw [entry?_eq_entryAt? (agrees.site site).file]
      exact text

/-! ## Any number of changes -/

/-- Those of some changes that are made, in order, when all are tried one after the other. -/
def made (f : FileContext) : List Change → Disk → List Change
  | [], _ => []
  | c :: rest, d =>
    match f.change c d with
    | (.ok (), g, e) => c :: g.made rest e
    | (.error _, g, e) => g.made rest e

/-- After any number of changes the variables are what those that were made give in memory, and the
file holds them, or what it held if none was made. -/
theorem changeAll_cases {changes : List Change} (site : d.Site f.path here name)
    (ran : f.changeAll changes d = (g, e)) :
    g.path = f.path ∧ g.memory.scope = f.memory.scope ∧ e.Site f.path here name ∧
      (f.made changes d).foldlM Memory.change f.memory = .ok g.memory ∧
      ((f.made changes d = [] ∧ e.entryAt? (name :: here) = d.entryAt? (name :: here)) ∨
        f.made changes d ≠ [] ∧ ∃ stamp,
          e.entryAt? (name :: here) = some (.text (g.memory.snapshot stamp).toText)) := by
  induction changes generalizing f d with
  | nil =>
    obtain ⟨rfl, rfl⟩ := Prod.mk.inj ran
    exact ⟨rfl, rfl, site, rfl, .inl ⟨rfl, rfl⟩⟩
  | cons c rest ih =>
    rcases first : f.change c d with ⟨answer, middle, after⟩
    rw [FileContext.changeAll, first] at ran
    rcases change_cases site first with
      ⟨refusal, -, rfl, rfl, rfl⟩ | ⟨next, -, rfl, rfl, agrees⟩ |
      ⟨next, planned, rfl, rfl, agrees, text⟩
    · simpa only [made, first] using ih site ran
    · obtain ⟨samePath, sameScope, siteAfter, memory, held⟩ := ih (agrees.site site) ran
      rw [agrees.entries _ (file_not_mem (by decide))] at held
      simpa only [made, first] using ⟨samePath, sameScope, siteAfter, memory, held⟩
    · obtain ⟨samePath, sameScope, siteAfter, memory, held⟩ :=
        ih (f := { f with memory := next }) (agrees.site site) ran
      have whole : (f.made (c :: rest) d).foldlM Memory.change f.memory = .ok g.memory := by
        simp only [made, first, List.foldlM_cons, planned]
        exact memory
      have some_made : f.made (c :: rest) d ≠ [] := by simp [made, first]
      refine ⟨samePath, sameScope.trans (Memory.scope_of_change planned), siteAfter, whole,
        .inr ⟨some_made, ?_⟩⟩
      rcases held with ⟨none_made, same⟩ | ⟨-, stamp, held⟩
      · -- No later change is made, so the file still holds what this one wrote.
        rw [none_made] at memory
        obtain rfl : next = g.memory := Except.ok.inj memory
        exact ⟨_, same.trans text⟩
      · exact ⟨stamp, held⟩

/-- A context that was opened writes every change through, whatever changes came before and
whichever writes and renames failed. Its variables are those that the changes which were made give
in memory, and the file at its path holds them, or what it held at the opening if none was made. -/
theorem opened_writes_through {d₀ d₁ : Disk} (changes : List Change)
    (opened : openAt d path scope = (.ok f, d₀)) (ran : f.changeAll changes d₀ = (g, d₁)) :
    g.path = path ∧ g.memory.scope = scope ∧ g.WritesThrough d₁ ∧
      (f.made changes d₀).foldlM Memory.change f.memory = .ok g.memory ∧
      (f.made changes d₀ = [] → d₁.entry? path = d.entry? path) ∧
      (f.made changes d₀ ≠ [] →
        ∃ stamp, d₁.entry? path = some (.text (g.memory.snapshot stamp).toText)) := by
  rcases openAt_cases opened with ⟨-, failed, -⟩ | ⟨-, ⟨_, failed, -, -⟩ |
    ⟨m, here, name, owner, success, loaded, site, agrees, -⟩⟩
  · cases failed
  · cases failed
  obtain rfl := Except.ok.inj success
  obtain ⟨samePath, sameScope, siteAfter, memory, held⟩ := changeAll_cases (agrees.site site) ran
  have stands := entry?_eq_entryAt? siteAfter.file
  refine ⟨samePath, sameScope.trans (scope_of_load loaded), writesThrough (samePath ▸ siteAfter),
    memory, ?_, ?_⟩
  · intro none_made
    rcases held with ⟨-, same⟩ | ⟨some_made, -⟩
    · rw [stands, same, agrees.entries _ (file_not_mem (by decide)), ← entry?_eq_entryAt? site.file]
    · exact absurd none_made some_made
  · intro some_made
    rcases held with ⟨none_made, -⟩ | ⟨-, stamp, text⟩
    · exact absurd none_made some_made
    · exact ⟨stamp, stands.trans text⟩

/-- What becomes of the writes and renames after a lock is made: the second change cannot be
written, and the third cannot be moved into place. -/
def unsteadyAttempts : List Disk.Attempt := [.works, .works, .tears 3, .works, .fails]

/-- Changes of which two are made then; one is refused before it reaches the disk. -/
def unsteadyChanges : List Change :=
  [.create "x" (.integer 1), .delete "z", .assign "x" (.integer 2), .assign "x" (.integer 3),
    .create "y" .null]

theorem opened_writes_through_unsteady :
    let f : FileContext := ⟨"ctx.json", .empty .persistent⟩
    let d₀ := { lockedDisk with attempts := unsteadyAttempts }
    openAt { vacantDisk with attempts := .works :: unsteadyAttempts } "ctx.json" .persistent =
        (.ok f, d₀) ∧
      f.made unsteadyChanges d₀ = [.create "x" (.integer 1), .create "y" .null] ∧
      ∃ g d₁ stamp, f.changeAll unsteadyChanges d₀ = (g, d₁) ∧
        g.memory.list = [⟨"x", .integer 1, .persistent⟩, ⟨"y", .null, .persistent⟩] ∧
        d₁.entry? "ctx.json" = some (.text (g.memory.snapshot stamp).toText) := by
  intro f d₀
  have opened : openAt { vacantDisk with attempts := .works :: unsteadyAttempts } "ctx.json"
      .persistent = (.ok f, d₀) := rfl
  have twoMade : f.made unsteadyChanges d₀ = [.create "x" (.integer 1), .create "y" .null] := by
    decide +kernel
  have list : (f.changeAll unsteadyChanges d₀).1.memory.list =
      [⟨"x", .integer 1, .persistent⟩, ⟨"y", .null, .persistent⟩] := by decide +kernel
  rcases ran : f.changeAll unsteadyChanges d₀ with ⟨g, d₁⟩
  rw [ran] at list
  obtain ⟨-, -, -, -, -, held⟩ := opened_writes_through unsteadyChanges opened ran
  obtain ⟨stamp, text⟩ := held (by rw [twoMade]; decide)
  exact ⟨opened, twoMade, g, d₁, stamp, rfl, list, text⟩

end FileContext

end StateMachines
