import StateMachines.Proofs.Diagnosis

/-! # Refused declarations of states

The merge of a lineage refuses a declaration if, when its turn comes, a state of its name is there
that may not be declared again. Only the machine's own part of what its merge refuses is reported of
it. Nothing is lost that way: the ancestors of a machine are merged in the same order in their own
lineages, up to the same tables, so each of them is itself reported with what its descendants see
refused of it.
-/

namespace StateMachines

namespace MergedStates

variable {o : Options}

/-- A state of that name is there, and it may not be declared again. -/
def refuses (o : Options) (merged : MergedStates) (st : StateDecl) : Bool :=
  (merged.states.get? st.name).any fun earlier => !earlier.decl.isOverridable o

theorem refused_add (merged : MergedStates) (p : PlacedState) :
    (add o merged p).refused = merged.refused ++ if merged.refuses o p.decl then [p] else [] := by
  unfold add refuses
  cases merged.states.get? p.decl.name with
  | none => simp
  | some earlier => by_cases allowed : earlier.decl.isOverridable o <;> simp [allowed]

/-- Of some declarations those are refused, in order, that are refused after the ones before. -/
theorem refused_addAll (states : Table PlacedState) (ps : List PlacedState) :
    (addAll o states ps).refused =
      ((List.range ps.length).filter fun i =>
        ps[i]?.any fun p => (addAll o states (ps.take i)).refuses o p.decl).filterMap
          fun i => ps[i]? := by
  induction ps using List.reverseRecOn with
  | nil => rfl
  | append_singleton front p ih =>
    have last : addAll o states (front ++ [p]) = add o (addAll o states front) p := by
      simp [addAll, List.foldl_append]
    -- A position in the front has the same declarations before it as in the whole list.
    have same : ∀ i ∈ List.range front.length, (front ++ [p])[i]? = front[i]? ∧
        (front ++ [p]).take i = front.take i := by
      intro i inside
      have bound := List.mem_range.mp inside
      exact ⟨List.getElem?_append_left bound, List.take_append_of_le_length (Nat.le_of_lt bound)⟩
    rw [last, refused_add, ih, List.length_append, List.length_singleton, List.range_succ,
      List.filter_append, List.filterMap_append]
    congr 1
    · rw [List.filterMap_filter, List.filterMap_filter]
      apply List.filterMap_congr
      intro i inside
      rw [(same i inside).1, (same i inside).2]
    · cases refused : (addAll o states front).refuses o p.decl <;> simp [refused]

end MergedStates

/-! ## The positions of refused states -/

namespace MachineDecl

variable {o : Options} {m : MachineDecl} {ancestors : List MachineDecl}

/-- The positions at which a machine declares a state that is refused: after its ancestors and its
own states up to there are merged, one of that name is there that may not be declared again. -/
def refusedAt (m : MachineDecl) (o : Options) (ancestors : List MachineDecl) : List Nat :=
  (List.range m.states.length).filter fun i => m.states[i]?.any fun st =>
    (mergeStates o ({ m with states := m.states.take i } :: ancestors).reverse).refuses o st

theorem ownRefused_eq : m.ownRefused o ancestors =
    (m.refusedAt o ancestors).filterMap fun i => m.placedStates[i]? := by
  -- What is merged when a position has its turn is the lineage with the machine cut off there.
  have merged (i : Nat) (st : StateDecl) :
      (mergeStates o ({ m with states := m.states.take i } :: ancestors).reverse).refuses o st =
        (MergedStates.addAll o (mergeStates o ancestors.reverse).states
          (m.placedStates.take i)).refuses o st := by
    rw [List.reverse_cons, MergedStates.mergeStates_eq, List.flatMap_append,
      List.flatMap_singleton, MergedStates.addAll_append, placedStates, placedStates,
      List.map_take]
    rfl
  have length : m.placedStates.length = m.states.length := List.length_map ..
  rw [ownRefused, MergedStates.refused_addAll, refusedAt, length]
  congr 1
  apply List.filter_congr
  intro i _
  rw [placedStates, List.getElem?_map, Option.any_map]
  simp only [merged]
  rfl

/-- A declaration that is refused is one of the machine's own list. -/
theorem mem_states_of_ownRefused {p : PlacedState} (refused : p ∈ m.ownRefused o ancestors) :
    p.decl ∈ m.states := by
  obtain ⟨st, member, rfl⟩ := List.mem_map.mp ((MergedStates.refused_sublist _ _).subset refused)
  exact member

end MachineDecl

/-! ## What is reported -/

namespace SystemDecl

variable {s : SystemDecl} {o : Options}

/-- Each machine of a lineage is declared, and has the rest of the lineage for its own. -/
theorem Lineage.above {m a : MachineDecl} {ancestors below above : List MachineDecl}
    (declared : s.declared? m.name = some m) (lineage : s.Lineage o m ancestors)
    (split : m :: ancestors = below ++ a :: above) :
    s.declared? a.name = some a ∧ s.Lineage o a above := by
  induction below generalizing m ancestors with
  | nil =>
    obtain ⟨rfl, rfl⟩ := List.cons.inj split
    exact ⟨declared, lineage⟩
  | cons first rest ih =>
    obtain ⟨rfl, rfl⟩ := List.cons.inj split
    cases rest with
    | nil => exact lineage.parent
    | cons next rest =>
      obtain ⟨found, parent⟩ := lineage.parent
      exact ih found parent rfl

/-- Of a machine with a lineage, what is refused of its own states is reported. -/
theorem filter_unsupportedOverride {a : MachineDecl} {above : List MachineDecl}
    (declared : s.declared? a.name = some a) (lineage : s.Lineage o a above) :
    ((s.violations o).filter fun v => v.kind == .unsupportedOverride && v.machine == a.name) =
      (a.ownRefused o above).map fun p => ⟨.unsupportedOverride, a.name, some p.decl.name⟩ := by
  have candidate := candidate_eq_ok_iff.mpr ⟨above, lineage, rfl⟩
  have swapped : (fun v : Violation => v.kind == .unsupportedOverride && v.machine == a.name) =
      fun v => v.machine == a.name && v.kind == .unsupportedOverride :=
    funext fun v => Bool.and_comm ..
  rw [swapped, ← List.filter_filter, filter_kind_violations (by decide), filter_machine_check,
    declared, Option.elim_some, MachineDecl.check, candidate]
  exact Candidate.unsupportedOverrides_ofLineage lineage.distinct

/-- What the merge of a candidate refuses of one machine of its lineage, and what is reported of
that machine: it has a lineage and a candidate of its own, the merge refuses the states at certain
positions of its declaration, and of each of these there is one violation, in order. -/
structure Reports (s : SystemDecl) (o : Options) (c : Candidate) (a : MachineDecl)
    (above : List MachineDecl) : Prop where
  lineage : s.Lineage o a above
  candidate : .ofLineage o a above ∈ s.candidates o
  refused : (c.refused.filter fun p => p.declaredIn == a.name) =
    (a.refusedAt o above).filterMap fun i => a.placedStates[i]?
  reported :
    ((s.violations o).filter fun v => v.kind == .unsupportedOverride && v.machine == a.name) =
      (a.refusedAt o above).filterMap fun i => a.states[i]?.map fun st =>
        ⟨.unsupportedOverride, a.name, some st.name⟩

/-- The merge of a machine refuses of each machine in its lineage what that one's own merge refuses
of it, and that is reported. -/
theorem reports_of_lineage {m a : MachineDecl} {ancestors below above : List MachineDecl}
    (declared : s.declared? m.name = some m) (lineage : s.Lineage o m ancestors)
    (split : m :: ancestors = below ++ a :: above) :
    s.Reports o (.ofLineage o m ancestors) a above := by
  obtain ⟨found, own⟩ := lineage.above declared split
  refine ⟨own, mem_candidates_iff.mpr ⟨a, found, above, own, rfl⟩, ?_, ?_⟩
  · rw [Candidate.refused_ofLineage, MachineDecl.refused_filter lineage.distinct split,
      MachineDecl.ownRefused_eq]
  · rw [filter_unsupportedOverride found own, MachineDecl.ownRefused_eq, List.map_filterMap]
    simp only [MachineDecl.placedStates, List.getElem?_map, Option.map_map]
    rfl

/-- What is reported of a machine is a state of its own list that its merge refuses. -/
theorem exists_refused_of_mem_violations {v : Violation} (found : v ∈ s.violations o)
    (kind : v.kind = .unsupportedOverride) :
    ∃ c ∈ s.candidates o, v.machine = c.name ∧ ∃ p ∈ c.refused, p.declaredIn = c.name ∧
      p.decl ∈ c.decl.states ∧ v.subject = some p.decl.name := by
  have reported : v ∈ s.check o .unsupportedOverride := by
    rw [← filter_kind_violations (by decide)]
    exact List.mem_filter.mpr ⟨found, beq_iff_eq.mpr kind⟩
  obtain ⟨m, held, reported⟩ := List.mem_flatMap.mp reported
  rw [MachineDecl.check] at reported
  split at reported
  · next c candidate =>
    obtain ⟨ancestors, lineage, rfl⟩ := candidate_eq_ok_iff.mp candidate
    obtain ⟨p, own, rfl⟩ := List.mem_map.mp reported
    obtain ⟨refused, origin⟩ := List.mem_filter.mp own
    have states : p ∈ m.ownRefused o ancestors := by
      rwa [Candidate.refused_ofLineage, Candidate.name_ofLineage,
        MachineDecl.refused_filter lineage.distinct (List.nil_append _).symm] at own
    have declared := mem_values_machineTable.mp held
    exact ⟨_, mem_candidates_iff.mpr ⟨m, declared, ancestors, lineage, rfl⟩, rfl, p, refused,
      beq_iff_eq.mp origin, MachineDecl.mem_states_of_ownRefused states, rfl⟩
  · simp at reported

/-- Whatever a merge refuses is a state of some machine of its lineage, and is reported of that
machine, once for each position. Whatever is reported of a machine was refused of its own states. -/
theorem refusals_reported_once (s : SystemDecl) (o : Options) :
    (∀ c ∈ s.candidates o, ∃ ancestors, s.Lineage o c.decl ancestors ∧
      c = .ofLineage o c.decl ancestors ∧
      (∀ p ∈ c.refused, ∃ a ∈ c.decl :: ancestors, p.declaredIn = a.name) ∧
      ∀ below a above, c.decl :: ancestors = below ++ a :: above → s.Reports o c a above) ∧
    ∀ v ∈ s.violations o, v.kind = .unsupportedOverride →
      ∃ c ∈ s.candidates o, v.machine = c.name ∧ ∃ p ∈ c.refused, p.declaredIn = c.name ∧
        p.decl ∈ c.decl.states ∧ v.subject = some p.decl.name := by
  refine ⟨?_, fun v found kind => exists_refused_of_mem_violations found kind⟩
  intro c member
  obtain ⟨m, declared, ancestors, lineage, rfl⟩ := mem_candidates_iff.mp member
  refine ⟨ancestors, lineage, rfl, ?_, fun below a above => reports_of_lineage declared lineage⟩
  intro p refused
  rw [Candidate.refused_ofLineage] at refused
  obtain ⟨a, inside, same⟩ := List.mem_map.mp (MachineDecl.declaredIn_of_refused refused)
  exact ⟨a, inside, same.symm⟩

/-- The machine between seals the state, so the machine below is refused both of its declarations,
and its heir, in whose merge they are refused again, is not reported. -/
example :
    (SystemDecl.mk "system" [
      (MachineDecl.ofName "base").withState (StateDecl.ofName "s").asVirtual,
      ((MachineDecl.ofName "between").extending "base").withState (StateDecl.ofName "s"),
      (((MachineDecl.ofName "below").extending "between").withState
        (StateDecl.ofName "s").asVirtual).withState (StateDecl.ofName "s"),
      (MachineDecl.ofName "heir").extending "below"]).violations .standard =
      [⟨.unsupportedOverride, "below", some "s"⟩, ⟨.unsupportedOverride, "below", some "s"⟩] := by
  decide +kernel

end SystemDecl

end StateMachines
