import StateMachines.Context.Memory
import StateMachines.Proofs.Table

/-! # Snapshots restored

What validation lets through is exactly what a context can hold: variables of one scope under
distinct names. So a valid snapshot restores to a context with its variables, and a context to
itself from its own snapshot.
-/

namespace StateMachines

namespace Snapshot

/-- Variables pass if they have the scope of the snapshot and new names. -/
theorem checkVariables_eq_ok_iff {scope : Scope} {seen : List String} {vars : List Variable} :
    checkVariables scope seen vars = .ok () ↔
      (∀ v ∈ vars, v.scope = scope) ∧ (vars.map Variable.name).Nodup ∧
        ∀ v ∈ vars, v.name ∉ seen := by
  induction vars generalizing seen with
  | nil => simp [checkVariables]
  | cons v rest ih =>
    rw [checkVariables]
    split
    · next foreign => simp [foreign]
    split
    · next repeated => simp [repeated]
    next tagged new =>
    simp only [ne_eq, Decidable.not_not] at tagged
    simp only [ih, List.mem_cons, not_or, forall_eq_or_imp, List.map_cons, List.nodup_cons,
      List.mem_map, not_exists, not_and]
    constructor
    · rintro ⟨tags, distinct, fresh⟩
      exact ⟨⟨tagged, tags⟩, ⟨fun w member => (fresh w member).1, distinct⟩, new,
        fun w member => (fresh w member).2⟩
    · rintro ⟨⟨-, tags⟩, ⟨apart, distinct⟩, -, fresh⟩
      exact ⟨tags, distinct, fun w member => ⟨apart w member, fresh w member⟩⟩

theorem validate_eq_ok_iff {s : Snapshot} :
    s.validate = .ok () ↔ s.version = snapshotVersion ∧ (∀ v ∈ s.vars, v.scope = s.scope) ∧
      (s.vars.map Variable.name).Nodup := by
  rw [validate]
  split
  · next other => simp [other]
  · next same =>
    simp only [ne_eq, Decidable.not_not] at same
    simp [checkVariables_eq_ok_iff, same]

/-- What is accepted is valid and was decoded. -/
theorem accept_eq_ok_iff {format : SnapshotFormat} {decoded : Option Snapshot} {t : Snapshot} :
    accept format decoded = .ok t ↔ decoded = some t ∧ t.validate = .ok () := by
  cases decoded with
  | none => simp [accept]
  | some s =>
    cases checked : s.validate with
    | error e => simp [accept, checked, Except.map]; rintro rfl; simp [checked]
    | ok => simp [accept, checked, Except.map]; rintro rfl; exact checked

end Snapshot

namespace Memory

@[simp] theorem names_list (m : Memory) : m.list.map Variable.name = m.vars.names := by
  simp [list, Table.names, Function.comp_def]

theorem scope_of_mem_list {m : Memory} {v : Variable} (member : v ∈ m.list) :
    v.scope = m.scope := by
  obtain ⟨entry, -, rfl⟩ := List.mem_map.mp member
  rfl

/-- A variable can be created if its name is new; it comes after those that are there. -/
theorem create_eq_ok_iff {m next : Memory} {name : String} {value : Value} :
    m.create name value = .ok next ↔ name ∉ m.vars.names ∧ next.scope = m.scope ∧
      next.vars.entries = m.vars.entries ++ [(name, value)] := by
  rw [create, contains]
  split
  · next present => simp [(Table.contains_iff ..).mp present]
  · next absent =>
    rw [Table.contains_iff] at absent
    rw [Except.ok.injEq, and_iff_right absent, ← Table.entries_set_of_not_mem value absent]
    obtain ⟨scope, vars⟩ := next
    constructor
    · intro same
      obtain ⟨rfl, rfl⟩ := mk.inj same
      exact ⟨rfl, rfl⟩
    · rintro ⟨rfl, same⟩
      exact congrArg (mk m.scope) (Table.ext same.symm)

/-- Variables can be created if their names are new and distinct; they come after those that are
there. -/
theorem createAll_eq_ok_iff {m next : Memory} {vars : List Variable} :
    m.createAll vars = .ok next ↔
      ((vars.map Variable.name).Nodup ∧ ∀ v ∈ vars, v.name ∉ m.vars.names) ∧
        next.scope = m.scope ∧
        next.vars.entries = m.vars.entries ++ vars.map fun v => (v.name, v.value) := by
  induction vars generalizing m with
  | nil =>
    obtain ⟨scope, vars⟩ := m
    obtain ⟨other, others⟩ := next
    simp only [createAll, Except.ok.injEq, mk.injEq, List.map_nil, List.nodup_nil, List.append_nil,
      List.not_mem_nil, false_implies, implies_true, true_and]
    constructor
    · rintro ⟨rfl, rfl⟩
      exact ⟨rfl, rfl⟩
    · rintro ⟨rfl, same⟩
      exact ⟨rfl, Table.ext same.symm⟩
  | cons v rest ih =>
    by_cases present : v.name ∈ m.vars.names
    · have refused : m.create v.name v.value = .error (.variableExists v.name m.scope) :=
        if_pos ((Table.contains_iff ..).mpr present)
      simp [createAll, refused, present]
    · have created : m.create v.name v.value = .ok { m with vars := m.vars.set v.name v.value } :=
        if_neg fun contained => present ((Table.contains_iff ..).mp contained)
      have last := Table.entries_set_of_not_mem v.value present
      simp only [createAll, created, ih, Table.names_set_of_not_mem _ present, last, List.map_cons,
        List.nodup_cons, List.mem_map, List.mem_cons, List.mem_append, List.not_mem_nil, or_false,
        not_or, not_exists, not_and, forall_eq_or_imp, List.append_assoc, List.cons_append,
        List.nil_append, present, not_false_eq_true, true_and]
      constructor
      · rintro ⟨⟨distinct, fresh⟩, made⟩
        exact ⟨⟨⟨fun w member => (fresh w member).2, distinct⟩,
          fun w member => (fresh w member).1⟩, made⟩
      · rintro ⟨⟨⟨apart, distinct⟩, fresh⟩, made⟩
        exact ⟨⟨distinct, fun w member => ⟨fresh w member, apart w member⟩⟩, made⟩

/-- Only a name that is there already keeps variables from being created. -/
theorem exists_variableExists_of_createAll {m : Memory} {vars : List Variable} {e : ContextError}
    (refused : m.createAll vars = .error e) : ∃ name, e = .variableExists name m.scope := by
  induction vars generalizing m with
  | nil => cases refused
  | cons v rest ih =>
    rw [createAll] at refused
    split at refused
    · next next created =>
      obtain ⟨name, same⟩ := ih refused
      exact ⟨name, by rw [same, scope_of_change (c := .create v.name v.value) created]⟩
    · next reason created =>
      obtain rfl := Except.error.inj refused
      unfold create at created
      split at created
      · exact ⟨v.name, (Except.error.inj created).symm⟩
      · cases created

theorem ofVariables_eq_ok_iff {scope : Scope} {vars : List Variable} {m : Memory} :
    ofVariables scope vars = .ok m ↔ (vars.map Variable.name).Nodup ∧ m.scope = scope ∧
      m.vars.entries = vars.map fun v => (v.name, v.value) := by
  simp [ofVariables, createAll_eq_ok_iff, empty, Table.names, Table.empty]

/-- Variables under distinct names can be created. -/
theorem exists_ofVariables (scope : Scope) {vars : List Variable}
    (distinct : (vars.map Variable.name).Nodup) : ∃ m, ofVariables scope vars = .ok m := by
  let entries := vars.map fun v => (v.name, v.value)
  have names : entries.map Prod.fst = vars.map Variable.name := by
    simp [entries, Function.comp_def]
  exact ⟨⟨scope, ⟨entries, names ▸ distinct⟩⟩, ofVariables_eq_ok_iff.mpr ⟨distinct, rfl, rfl⟩⟩

/-- The context of variables of its scope lists them as they are. -/
theorem ofVariables_eq_ok_iff_list {scope : Scope} {vars : List Variable} {m : Memory}
    (tagged : ∀ v ∈ vars, v.scope = scope) :
    ofVariables scope vars = .ok m ↔
      (vars.map Variable.name).Nodup ∧ m.scope = scope ∧ m.list = vars := by
  rw [ofVariables_eq_ok_iff]
  constructor
  · rintro ⟨distinct, same, entries⟩
    refine ⟨distinct, same, ?_⟩
    rw [list, entries, List.map_map]
    conv_rhs => rw [← List.map_id vars]
    apply List.map_congr_left
    intro v member
    simp [same, ← tagged v member]
  · rintro ⟨distinct, same, listed⟩
    refine ⟨distinct, same, ?_⟩
    rw [← listed, list, List.map_map]
    simp [Function.comp_def]

/-- A valid snapshot restores to the context of its variables. -/
theorem ofSnapshot_eq_ok_iff {s : Snapshot} {m : Memory} (valid : s.validate = .ok ()) :
    ofSnapshot s = .ok m ↔ m.scope = s.scope ∧ m.list = s.vars := by
  obtain ⟨-, tagged, distinct⟩ := Snapshot.validate_eq_ok_iff.mp valid
  rw [ofSnapshot, ofVariables_eq_ok_iff_list tagged, and_iff_right distinct]

/-- A snapshot of a context is valid. -/
theorem validate_snapshot (m : Memory) (stamp : Stamp) : (m.snapshot stamp).validate = .ok () := by
  rw [Snapshot.validate_eq_ok_iff]
  refine ⟨rfl, fun v member => scope_of_mem_list member, ?_⟩
  rw [snapshot, names_list]
  exact m.vars.names_nodup

/-- A context is restored from a snapshot of it. -/
theorem ofSnapshot_snapshot (m : Memory) (stamp : Stamp) : ofSnapshot (m.snapshot stamp) = .ok m :=
  (ofSnapshot_eq_ok_iff (m.validate_snapshot stamp)).mpr ⟨rfl, rfl⟩

end Memory

end StateMachines
