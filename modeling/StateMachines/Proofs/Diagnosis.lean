import StateMachines.Proofs.Buildable

/-! # Diagnosis

The violations are found stage by stage: first the machines that repeat a name, then rule by rule
what each machine violates, machine by machine as they are declared. So each violation can be traced
to one machine and one rule, and what is found of a machine stands together. Building answers the
first violation of that list, or a system where the list is empty: putting uses in place looks up
the same names in the same tables as the rules do, and never fails after them.
-/

namespace StateMachines

namespace Violation.Kind

/-- The place of a rule in checking order. -/
def stage : Kind → Nat
  | duplicateMachine => 0
  | invalidParent => 1
  | unsupportedOverride => 2
  | inheritedAbstractState => 3
  | ownAbstractState => 4
  | unknownTarget => 5
  | unknownGuard => 6
  | unknownAction => 7

/-- The rules that look at one machine at a time, in checking order. -/
def ofMachine : List Kind :=
  [invalidParent, unsupportedOverride, inheritedAbstractState, ownAbstractState, unknownTarget,
    unknownGuard, unknownAction]

theorem ofMachine_ordered : ofMachine.Pairwise fun first second => first.stage < second.stage := by
  decide

theorem stage_duplicateMachine_lt {kind : Kind} (perMachine : kind ∈ ofMachine) :
    duplicateMachine.stage < kind.stage := by
  revert kind
  decide

theorem duplicateMachine_ne {kind : Kind} (perMachine : kind ∈ ofMachine) :
    duplicateMachine ≠ kind :=
  fun same => Nat.lt_irrefl _ (same ▸ stage_duplicateMachine_lt perMachine)

end Violation.Kind

/-! ## What a rule finds of one machine -/

namespace Candidate

/-- What a rule finds of a candidate. The rules on names and parents are settled before there is
one. -/
def check (c : Candidate) : Violation.Kind → List Violation
  | .duplicateMachine | .invalidParent => []
  | .unsupportedOverride => c.unsupportedOverrides
  | .inheritedAbstractState => c.inheritedAbstractStates
  | .ownAbstractState => c.ownAbstractStates
  | .unknownTarget => c.unknownTargets
  | .unknownGuard => c.unknownGuards
  | .unknownAction => c.unknownActions

/-- What is found names the machine and the rule. -/
theorem exists_subject_of_mem_check {c : Candidate} {kind : Violation.Kind} {v : Violation}
    (found : v ∈ c.check kind) : ∃ subject, v = c.violation kind subject := by
  cases kind with
  | duplicateMachine | invalidParent => simp [check] at found
  | unsupportedOverride =>
    obtain ⟨p, -, rfl⟩ := List.mem_map.mp found
    exact ⟨_, rfl⟩
  | inheritedAbstractState | ownAbstractState =>
    simp only [check, inheritedAbstractStates, ownAbstractStates, abstractStates] at found
    split at found
    · simp at found
    · obtain ⟨entry, -, rfl⟩ := List.mem_map.mp found
      exact ⟨_, rfl⟩
  | unknownTarget =>
    obtain ⟨t, -, rfl⟩ := List.mem_map.mp found
    exact ⟨_, rfl⟩
  | unknownGuard | unknownAction =>
    obtain ⟨name, -, rfl⟩ := List.mem_map.mp found
    exact ⟨_, rfl⟩

end Candidate

/-- Only the machine from which it starts is found to have an invalid parent. -/
theorem exists_subject_of_ancestorsFrom {machines : Table MachineDecl} {start : String} {left : Nat}
    {met : List String} {m : MachineDecl} {v : Violation}
    (failed : ancestorsFrom machines start left met m = .error v) :
    ∃ subject, v = ⟨.invalidParent, start, subject⟩ := by
  fun_induction ancestorsFrom machines start left met m with
  | case1 | case6 => contradiction
  | case2 | case3 | case4 => exact ⟨_, (Except.error.inj failed).symm⟩
  | case5 _ _ _ _ _ _ _ _ _ further ih => exact ih (further.trans failed)

namespace MachineDecl

/-- What a rule finds of a machine: what is wrong with its ancestry, or else what is found of its
candidate. -/
def check (m : MachineDecl) (machines : Table MachineDecl) (o : Options) (kind : Violation.Kind) :
    List Violation :=
  match m.candidate machines o with
  | .ok c => c.check kind
  | .error v => if kind = .invalidParent then [v] else []

/-- What is found names the machine and the rule. -/
theorem names_of_mem_check {m : MachineDecl} {machines : Table MachineDecl} {o : Options}
    {kind : Violation.Kind} {v : Violation} (found : v ∈ m.check machines o kind) :
    v.kind = kind ∧ v.machine = m.name := by
  rw [check, candidate, MachineDecl.ancestors] at found
  cases search : ancestorsFrom machines m.name o.maxInheritanceDepth [m.name] m with
  | error w =>
    rw [search] at found
    obtain ⟨subject, rfl⟩ := exists_subject_of_ancestorsFrom search
    by_cases parents : kind = .invalidParent
    · subst parents
      obtain rfl : v = _ := by simpa [Except.map] using found
      exact ⟨rfl, rfl⟩
    · simp [Except.map, parents] at found
  | ok ancestors =>
    rw [search] at found
    obtain ⟨subject, rfl⟩ := Candidate.exists_subject_of_mem_check found
    exact ⟨rfl, rfl⟩

end MachineDecl

namespace SystemDecl

variable {s : SystemDecl} {o : Options}

/-- What a rule finds, machine by machine. -/
def check (s : SystemDecl) (o : Options) (kind : Violation.Kind) : List Violation :=
  s.machineTable.values.flatMap fun m => m.check s.machineTable o kind

private theorem flatMap_candidates_eq (f : Candidate → List Violation) :
    (s.candidates o).flatMap f = s.machineTable.values.flatMap fun m =>
      match m.candidate s.machineTable o with
      | .ok c => f c
      | .error _ => [] := by
  rw [candidates, lineages, List.filterMap_map, List.filterMap_eq_flatMap_toList,
    List.flatMap_assoc]
  apply List.flatMap_congr
  intro m _
  rw [Function.comp_apply]
  cases m.candidate s.machineTable o <;> simp [Except.toOption]

private theorem invalidParents_eq : s.invalidParents o = s.check o .invalidParent := by
  rw [invalidParents, lineages, List.filterMap_map, List.filterMap_eq_flatMap_toList, check]
  apply List.flatMap_congr
  intro m _
  rw [Function.comp_apply, MachineDecl.check]
  cases m.candidate s.machineTable o <;> rfl

/-- All violations: the repeated names, then rule by rule what each machine violates. -/
theorem violations_eq_stages (s : SystemDecl) (o : Options) :
    s.violations o = s.duplicateMachines ++ Violation.Kind.ofMachine.flatMap (s.check o) := by
  simp only [violations, invalidParents_eq, flatMap_candidates_eq, Violation.Kind.ofMachine,
    List.flatMap_cons, List.flatMap_nil, List.append_nil, List.append_assoc]
  rfl

theorem kind_of_mem_check {kind : Violation.Kind} {v : Violation} (found : v ∈ s.check o kind) :
    v.kind = kind := by
  obtain ⟨m, -, found⟩ := List.mem_flatMap.mp found
  exact (MachineDecl.names_of_mem_check found).1

theorem kind_of_mem_duplicateMachines {v : Violation} (found : v ∈ s.duplicateMachines) :
    v.kind = .duplicateMachine := by
  obtain ⟨name, -, rfl⟩ := List.mem_map.mp found
  rfl

/-- The violations of a rule on machines are what the rule finds. -/
theorem filter_kind_violations {kind : Violation.Kind}
    (perMachine : kind ∈ Violation.Kind.ofMachine) :
    ((s.violations o).filter fun v => v.kind == kind) = s.check o kind := by
  have none : (s.duplicateMachines.filter fun v => v.kind == kind) = [] := by
    refine List.filter_eq_nil_iff.mpr ?_
    intro v found
    rw [kind_of_mem_duplicateMachines found, beq_iff_eq]
    exact Violation.Kind.duplicateMachine_ne perMachine
  have each (other : Violation.Kind) : ((s.check o other).filter fun v => v.kind == kind) =
      if other = kind then s.check o kind else [] := by
    split
    · next same =>
      subst same
      exact List.filter_eq_self.mpr fun v found => beq_iff_eq.mpr (kind_of_mem_check found)
    · next apart =>
      refine List.filter_eq_nil_iff.mpr fun v found => ?_
      rwa [kind_of_mem_check found, beq_iff_eq]
  rw [violations_eq_stages, List.filter_append, none, List.nil_append, List.filter_flatMap]
  simp only [each]
  revert kind
  simp [Violation.Kind.ofMachine]

/-- What a rule finds of the machines of one name is what it finds of the one that counts. -/
theorem filter_machine_check (name : String) (kind : Violation.Kind) :
    ((s.check o kind).filter fun v => v.machine == name) =
      (s.declared? name).elim [] fun m => m.check s.machineTable o kind := by
  have others {m : MachineDecl} (apart : m.name ≠ name) :
      ((m.check s.machineTable o kind).filter fun v => v.machine == name) = [] := by
    refine List.filter_eq_nil_iff.mpr fun v found => ?_
    rwa [(MachineDecl.names_of_mem_check found).2, beq_iff_eq]
  rw [check, List.filter_flatMap]
  cases declared : s.declared? name with
  | none =>
    refine List.flatMap_eq_nil_iff.mpr fun m held => others ?_
    rintro rfl
    simp [mem_values_machineTable.mp held] at declared
  | some m =>
    obtain rfl := name_of_declared? declared
    obtain ⟨front, back, split⟩ := List.append_of_mem (mem_values_machineTable.mpr declared)
    have distinct := Table.names_nodup s.machineTable
    rw [← map_name_values_machineTable, split] at distinct
    have apart : ∀ other, other ∈ front ∨ other ∈ back → other.name ≠ m.name := by
      rintro other beside same
      rw [List.map_append, List.map_cons, List.nodup_append, List.nodup_cons] at distinct
      rcases beside with before | after
      · exact distinct.2.2 _ (List.mem_map_of_mem before) _ (List.mem_cons_self ..) same
      · exact distinct.2.1.1 (same ▸ List.mem_map_of_mem after)
    rw [split, List.flatMap_append, List.flatMap_cons, List.flatMap_eq_nil_iff.mpr,
      List.flatMap_eq_nil_iff.mpr, List.nil_append, List.append_nil]
    · exact List.filter_eq_self.mpr fun v found =>
        beq_iff_eq.mpr (MachineDecl.names_of_mem_check found).2
    · exact fun other after => others (apart other (.inr after))
    · exact fun other before => others (apart other (.inl before))

/-! ## The order in which violations are found -/

/-- The place of a machine's first declaration. -/
def position (s : SystemDecl) (name : String) : Nat := (s.machines.map MachineDecl.name).idxOf name

/-- The declarations whose name stands before, in order. -/
def repeated (s : SystemDecl) : List MachineDecl :=
  (s.machines.zipIdx.filter fun (m, i) =>
    ((s.machines.take i).map MachineDecl.name).contains m.name).map Prod.fst

/-- Violations stand stage by stage, and within a stage machine by machine as they are declared;
those of repeated names stand for the declarations that repeat one, in order. -/
structure CheckingOrder (s : SystemDecl) (found : List Violation) : Prop where
  declared : ∀ v ∈ found, v.machine ∈ s.machines.map MachineDecl.name
  stages : found.Pairwise fun first second => first.kind.stage ≤ second.kind.stage
  machines : found.Pairwise fun first second => first.kind = second.kind →
    first.kind ≠ .duplicateMachine → s.position first.machine ≤ s.position second.machine
  duplicates : (found.filter fun v => v.kind == .duplicateMachine) =
    s.repeated.map fun m => ⟨.duplicateMachine, m.name, none⟩

theorem check_ordered (s : SystemDecl) (o : Options) (kind : Violation.Kind) :
    (s.check o kind).Pairwise fun first second =>
      s.position first.machine ≤ s.position second.machine := by
  have names := Table.pairwise_idxOf_eraseDups (s.machines.map MachineDecl.name)
  rw [← names_machineTable, ← map_name_values_machineTable, List.pairwise_map] at names
  refine List.pairwise_flatMap.mpr ⟨?_, names.imp ?_⟩
  · intro m _
    apply List.pairwise_of_forall_mem_list
    intro first found second found'
    have same : first.machine = second.machine :=
      (MachineDecl.names_of_mem_check found).2.trans (MachineDecl.names_of_mem_check found').2.symm
    exact Nat.le_of_eq (congrArg s.position same)
  · intro m next before first found second found'
    rw [(MachineDecl.names_of_mem_check found).2, (MachineDecl.names_of_mem_check found').2]
    exact Nat.le_of_lt before

/-- A violation is found before another one at an earlier stage, or at the same stage and then not
for a machine that is declared later. -/
private theorem violations_ordered (s : SystemDecl) (o : Options) :
    (s.violations o).Pairwise fun first second =>
      first.kind.stage < second.kind.stage ∨ first.kind = second.kind ∧
        (first.kind ≠ .duplicateMachine →
          s.position first.machine ≤ s.position second.machine) := by
  rw [violations_eq_stages]
  -- Repeated names among themselves, one rule by itself, two rules, and names before all rules.
  refine List.pairwise_append.mpr ⟨?_, List.pairwise_flatMap.mpr ⟨?_, ?_⟩, ?_⟩
  · apply List.pairwise_of_forall_mem_list
    intro first found second found'
    have kind := kind_of_mem_duplicateMachines found
    exact .inr ⟨kind.trans (kind_of_mem_duplicateMachines found').symm,
      fun other => absurd kind other⟩
  · intro kind _
    refine (s.check_ordered o kind).imp_of_mem ?_
    intro first second found found' before
    exact .inr ⟨(kind_of_mem_check found).trans (kind_of_mem_check found').symm, fun _ => before⟩
  · refine Violation.Kind.ofMachine_ordered.imp ?_
    intro kind later before first found second found'
    rw [kind_of_mem_check found, kind_of_mem_check found']
    exact .inl before
  · intro first found second found'
    obtain ⟨kind, perMachine, found'⟩ := List.mem_flatMap.mp found'
    rw [kind_of_mem_duplicateMachines found, kind_of_mem_check found']
    exact .inl (Violation.Kind.stage_duplicateMachine_lt perMachine)

private theorem repeatedNames_eq (seen : List String) (machines : List MachineDecl) :
    repeatedNames seen (machines.map MachineDecl.name) =
      (machines.zipIdx.filter fun (m, i) =>
        (seen ++ (machines.take i).map MachineDecl.name).contains m.name).map
          fun (m, _) => m.name := by
  induction machines generalizing seen with
  | nil => rfl
  | cons m rest ih =>
    have later (seen' : List String) (same : ∀ name, name ∈ seen' ↔ name ∈ seen ∨ name = m.name) :
        repeatedNames seen' (rest.map MachineDecl.name) =
          ((rest.zipIdx 1).filter fun (next, i) =>
            (seen ++ ((m :: rest).take i).map MachineDecl.name).contains next.name).map
              fun (next, _) => next.name := by
      rw [ih, List.zipIdx_succ, List.filter_map, List.map_map]
      congr 1
      apply List.filter_congr
      rintro ⟨next, i⟩ _
      simp [same, or_assoc]
    rw [List.map_cons, repeatedNames, List.zipIdx_cons, List.filter_cons]
    by_cases again : m.name ∈ seen
    · rw [if_pos again, later seen fun name => ⟨.inl, ?_⟩]
      · simp [again]
      · rintro (before | rfl)
        · exact before
        · exact again
    · rw [if_neg again, later (m.name :: seen) fun name => by simp [or_comm]]
      simp [again]

theorem duplicateMachines_eq (s : SystemDecl) :
    s.duplicateMachines = s.repeated.map fun m => ⟨.duplicateMachine, m.name, none⟩ := by
  rw [duplicateMachines, repeatedNames_eq, repeated, List.map_map, List.map_map]
  rfl

/-- The violations of a declaration are in checking order. -/
theorem violations_checkingOrder (s : SystemDecl) (o : Options) :
    s.CheckingOrder (s.violations o) where
  declared v found := by
    rw [violations_eq_stages] at found
    rcases List.mem_append.mp found with found | found
    · rw [duplicateMachines_eq] at found
      obtain ⟨m, again, rfl⟩ := List.mem_map.mp found
      obtain ⟨⟨m, i⟩, member, rfl⟩ := List.mem_map.mp again
      exact List.mem_map_of_mem (List.fst_mem_of_mem_zipIdx (List.mem_filter.mp member).1)
    · obtain ⟨kind, -, found⟩ := List.mem_flatMap.mp found
      obtain ⟨m, held, found⟩ := List.mem_flatMap.mp found
      rw [(MachineDecl.names_of_mem_check found).2]
      exact List.mem_map_of_mem (mem_of_declared? (mem_values_machineTable.mp held))
  stages := by
    refine (s.violations_ordered o).imp ?_
    rintro first second (before | ⟨same, -⟩)
    · exact Nat.le_of_lt before
    · exact Nat.le_of_eq (congrArg _ same)
  machines := by
    refine (s.violations_ordered o).imp ?_
    rintro first second (before | ⟨-, machines⟩) same
    · exact absurd before (same ▸ Nat.lt_irrefl _)
    · exact machines
  duplicates := by
    rw [violations_eq_stages, List.filter_append, List.filter_eq_self.mpr,
      List.filter_eq_nil_iff.mpr, List.append_nil, duplicateMachines_eq]
    · intro v found
      obtain ⟨kind, perMachine, found⟩ := List.mem_flatMap.mp found
      rw [kind_of_mem_check found, beq_iff_eq]
      exact (Violation.Kind.duplicateMachine_ne perMachine).symm
    · intro v found
      exact beq_iff_eq.mpr (kind_of_mem_duplicateMachines found)

/-! ## Building -/

/-- Building and diagnosis agree: a system is built exactly if no violation is found, and else the
first one is the answer; where none is found, every candidate resolves. The violations are in
checking order. -/
theorem build_agrees_with_violations (s : SystemDecl) (o : Options) :
    ((∃ system, s.build o = .ok system) ↔ s.violations o = []) ∧
      (∀ v, s.build o = .error v ↔ (s.violations o).head? = some v) ∧
      (s.violations o = [] → ∀ c ∈ s.candidates o, ∃ m, c.resolve = .ok m) ∧
      s.CheckingOrder (s.violations o) := by
  refine ⟨exists_build_iff_violations, ?_, exists_resolve_of_violations,
    violations_checkingOrder s o⟩
  intro v
  cases found : s.violations o with
  | nil =>
    obtain ⟨system, built⟩ := exists_build_iff_violations.mpr found
    simp [built]
  | cons first rest => simp [build, found]

end SystemDecl

end StateMachines
