import StateMachines.Proofs.History
import StateMachines.Proofs.SnapshotBinary
import StateMachines.Proofs.SnapshotJson

/-! # Validation and restoring

A snapshot is validated without the context that it restores to, by a scan of its own for names that
repeat. The two agree: both stop at the first variable that cannot stand after those before it, and
validation lets through only what a context can hold. So what a decoder returns can be restored, and
snapshots and contexts are inverse to each other.
-/

namespace StateMachines

/-! ## What is not valid -/

namespace Snapshot

variable {s : Snapshot} {scope : Scope} {seen : List String} {before rest : List Variable}
  {v : Variable} {e : SnapshotError}

/-- Variables that a context of the scope can hold. -/
def Fits (scope : Scope) (vars : List Variable) : Prop :=
  (∀ v ∈ vars, v.scope = scope) ∧ (vars.map Variable.name).Nodup

/-- What is wrong with a variable after others: its scope, or else that one of them has its name. -/
inductive Clashes (scope : Scope) (before : List Variable) (v : Variable) : SnapshotError → Prop
  | foreign (other : v.scope ≠ scope) :
      Clashes scope before v (.scopeMismatch v.name scope v.scope)
  | repeated (own : v.scope = scope) (earlier : v.name ∈ before.map Variable.name) :
      Clashes scope before v (.duplicateVariable v.name)

/-- What is wrong with a snapshot: its version, or else the first variable that clashes with the
scope or with those before it. -/
inductive Invalid (s : Snapshot) : SnapshotError → Prop
  | version (other : s.version ≠ snapshotVersion) : Invalid s (.unsupportedVersion s.version)
  | clash {before after : List Variable} {v : Variable} {e : SnapshotError}
      (known : s.version = snapshotVersion) (split : s.vars = before ++ v :: after)
      (fit : Fits s.scope before) (clashes : Clashes s.scope before v e) : Invalid s e

theorem exists_clashes (fit : Fits scope before) (unfit : ¬ Fits scope (before ++ [v])) :
    ∃ e, Clashes scope before v e := by
  by_cases own : v.scope = scope
  · refine ⟨_, .repeated own (mem_of_not_nodup_concat fit.2 fun distinct => unfit ⟨?_, distinct⟩)⟩
    intro w member
    rcases List.mem_append.mp member with inside | last
    · exact fit.1 w inside
    · rwa [List.mem_singleton.mp last]
  · exact ⟨_, .foreign own⟩

/-- A scan goes on after variables that pass, and remembers their names. -/
theorem checkVariables_append (passed : checkVariables scope seen before = .ok ()) :
    checkVariables scope seen (before ++ rest) =
      checkVariables scope ((before.map Variable.name).reverse ++ seen) rest := by
  induction before generalizing seen with
  | nil => rfl
  | cons v before ih =>
    rw [checkVariables] at passed
    split at passed
    · cases passed
    split at passed
    · cases passed
    next own new =>
    rw [List.cons_append, checkVariables, if_neg own, if_neg new, ih passed]
    simp

/-- A scan stops at a variable that clashes with those before it. -/
theorem checkVariables_of_clashes (fit : Fits scope before) (clashes : Clashes scope before v e) :
    checkVariables scope [] (before ++ v :: rest) = .error e := by
  have passed : checkVariables scope [] before = .ok () :=
    checkVariables_eq_ok_iff.mpr ⟨fit.1, fit.2, fun w _ => List.not_mem_nil⟩
  rw [checkVariables_append passed, checkVariables]
  cases clashes with
  | foreign other => rw [if_pos other]
  | repeated own earlier =>
    rw [if_neg (not_not_intro own), if_pos]
    simpa using earlier

/-- A snapshot fails validation with what is wrong with it. -/
theorem validate_eq_error_iff : s.validate = .error e ↔ s.Invalid e := by
  have fails {e : SnapshotError} (invalid : s.Invalid e) : s.validate = .error e := by
    cases invalid with
    | version other => rw [validate, if_pos other]
    | clash known split fit clashes =>
      rw [validate, if_neg (not_not_intro known), split, checkVariables_of_clashes fit clashes]
  -- A snapshot that fails is invalid for some reason, which is then the one that is reported.
  refine ⟨fun failed => ?_, fails⟩
  by_cases known : s.version = snapshotVersion
  · have nothing : Fits s.scope [] := ⟨by simp, .nil⟩
    rcases exists_first_failure (Fits s.scope) nothing s.vars with
      fit | ⟨before, v, after, split, fit, unfit⟩
    · rw [validate_eq_ok_iff.mpr ⟨known, fit⟩] at failed
      cases failed
    · obtain ⟨found, clashes⟩ := exists_clashes fit unfit
      have invalid : s.Invalid found := .clash known split fit clashes
      rw [fails invalid] at failed
      exact Except.error.inj failed ▸ invalid
  · have invalid := Invalid.version known
    rw [fails invalid] at failed
    exact Except.error.inj failed ▸ invalid

end Snapshot

/-! ## What cannot be restored -/

namespace Memory

variable {m next : Memory} {vars rest before after : List Variable} {v : Variable}

/-- Creating variables goes on with the context that those before made. -/
theorem createAll_append (created : m.createAll vars = .ok next) :
    m.createAll (vars ++ rest) = next.createAll rest := by
  induction vars generalizing m with
  | nil =>
    obtain rfl := Except.ok.inj created
    rfl
  | cons v vars ih =>
    rw [createAll] at created
    rw [List.cons_append, createAll]
    split at created
    · exact ih created
    · cases created

/-- Creating variables stops at a name that repeats. -/
theorem ofVariables_of_repeats {scope : Scope} (distinct : (before.map Variable.name).Nodup)
    (repeats : v.name ∈ before.map Variable.name) :
    ofVariables scope (before ++ v :: after) = .error (.variableExists v.name scope) := by
  obtain ⟨m, built⟩ := exists_ofVariables scope distinct
  obtain ⟨-, sameScope, entries⟩ := ofVariables_eq_ok_iff.mp built
  have held : v.name ∈ m.vars.names := by
    rw [Table.names, entries]
    simpa [Function.comp_def] using repeats
  have refused : m.create v.name v.value = .error (.variableExists v.name m.scope) :=
    create_eq_error_iff.mpr ⟨held, rfl⟩
  rw [ofVariables, createAll_append built, createAll, refused, sameScope]

/-- A snapshot cannot be restored if a name repeats; the first that does is the one that is
reported. -/
theorem ofSnapshot_eq_error_iff {s : Snapshot} {e : ContextError} :
    ofSnapshot s = .error e ↔ ∃ before v after, s.vars = before ++ v :: after ∧
      (before.map Variable.name).Nodup ∧ v.name ∈ before.map Variable.name ∧
        e = .variableExists v.name s.scope := by
  constructor
  · intro failed
    rcases exists_first_failure (fun vars => (vars.map Variable.name).Nodup) .nil s.vars with
      distinct | ⟨before, v, after, split, distinct, unfit⟩
    · obtain ⟨m, built⟩ := exists_ofVariables s.scope distinct
      rw [ofSnapshot, built] at failed
      cases failed
    · have repeats := mem_of_not_nodup_concat distinct unfit
      rw [ofSnapshot, split, ofVariables_of_repeats distinct repeats] at failed
      exact ⟨before, v, after, split, distinct, repeats, (Except.error.inj failed).symm⟩
  · rintro ⟨before, v, after, split, distinct, repeats, rfl⟩
    rw [ofSnapshot, split, ofVariables_of_repeats distinct repeats]

end Memory

/-! ## Snapshots and contexts -/

namespace Snapshot

/-- A snapshot restores to a context that has its scope and lists its variables in their order. -/
def IsRestored (s : Snapshot) : Prop :=
  ∃ m, Memory.ofSnapshot s = .ok m ∧ m.scope = s.scope ∧ m.list = s.vars

theorem isRestored_of_validate {s : Snapshot} (valid : s.validate = .ok ()) : s.IsRestored := by
  obtain ⟨m, built⟩ := Memory.exists_ofVariables s.scope (validate_eq_ok_iff.mp valid).2.2
  exact ⟨m, built, (Memory.ofSnapshot_eq_ok_iff valid).mp built⟩

/-- A valid snapshot restores; the others fail with what is wrong with them, and restoring fails for
a repeated name alone. A context restores from its own snapshots, whatever was done with it since it
was empty, and whatever a decoder returns restores. -/
theorem restores_what_validates :
    (∀ s : Snapshot, (s.validate = .ok () → s.IsRestored) ∧
      (∀ e, s.validate = .error e ↔ s.Invalid e) ∧
      ∀ e, Memory.ofSnapshot s = .error e ↔ ∃ before v after, s.vars = before ++ v :: after ∧
        (before.map Variable.name).Nodup ∧ v.name ∈ before.map Variable.name ∧
          e = .variableExists v.name s.scope) ∧
    (∀ (scope : Scope) (calls : List Change) (stamp : Stamp),
      let m := (Memory.empty scope).performAll calls
      (m.snapshot stamp).validate = .ok () ∧ Memory.ofSnapshot (m.snapshot stamp) = .ok m) ∧
    (∀ text s, ofText text = .ok s → s.IsRestored) ∧
    ∀ bytes s, ofBytes bytes = .ok s → s.IsRestored := by
  refine ⟨fun s => ?_, fun scope calls stamp => ?_, fun text s decoded => ?_,
    fun bytes s decoded => ?_⟩
  · exact ⟨isRestored_of_validate, fun e => validate_eq_error_iff,
      fun e => Memory.ofSnapshot_eq_error_iff⟩
  · exact ⟨Memory.validate_snapshot _ stamp, Memory.ofSnapshot_snapshot _ stamp⟩
  · rw [ofText, ofChars] at decoded
    exact isRestored_of_validate (accept_eq_ok_iff.mp decoded).2
  · rw [ofBytes] at decoded
    exact isRestored_of_validate (accept_eq_ok_iff.mp decoded).2

/-- A flag and a variable of the given name after it. -/
def flagged (name : String) : Snapshot :=
  ⟨snapshotVersion, ⟨⟨7⟩, ⟨⟨2024, 1, 2⟩, 11045, 0⟩⟩, .persistent,
    [⟨"flag", .bool true, .persistent⟩, ⟨name, .null, .persistent⟩]⟩

theorem restores_what_validates_flagged :
    let s := flagged "item"
    let twice := flagged "flag"
    (s.validate = .ok () ∧ s.IsRestored) ∧
      (ofText s.toText = .ok s ∧ s.IsRestored) ∧
      (ofBytes s.toBytes = .ok s ∧ s.IsRestored) ∧
      twice.Invalid (.duplicateVariable "flag") ∧
      Memory.ofSnapshot twice = .error (.variableExists "flag" .persistent) := by
  intro s twice
  obtain ⟨snapshots, -, texts, bytes⟩ := restores_what_validates
  have version : s.version < 2 ^ 32 := show 1 < 2 ^ 32 by decide
  have time : Timestamp.ofString? s.stamp.takenAt.text = some s.stamp.takenAt := by decide +kernel
  have readText : ofText s.toText = .ok s :=
    (ofText_toText_eq_self_iff version time).mpr ⟨rfl, by decide +kernel⟩
  have readBytes : ofBytes s.toBytes = .ok s := by
    have read := read?_toBytes version (by decide +kernel) time []
    rw [List.append_nil] at read
    rw [ofBytes, read]
    rfl
  exact ⟨⟨rfl, (snapshots s).1 rfl⟩, ⟨readText, texts _ s readText⟩,
    ⟨readBytes, bytes _ s readBytes⟩, ((snapshots twice).2.1 _).mp rfl,
    ((snapshots twice).2.2 _).mpr
      ⟨[⟨"flag", .bool true, .persistent⟩], ⟨"flag", .null, .persistent⟩, [], rfl, by decide,
        by decide, rfl⟩⟩

end Snapshot

end StateMachines
