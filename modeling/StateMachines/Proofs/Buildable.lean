import StateMachines.Proofs.Merging
import StateMachines.Proofs.Resolution

/-! # Which systems can be built

The conditions under which a system is built, said on its declarations: nothing here speaks of
candidates, merged tables or violations. A machine conforms if its overrides are allowed, and if
what its lineage declares last under each name is concrete, leads to states of the lineage and
uses guards and actions of the lineage. A system is built exactly if its machines have distinct
names and each one has a lineage to which it conforms.
-/

namespace StateMachines

/-- A machine conforms to the rules on states, given its ancestors, nearest first. -/
structure MachineDecl.Conforms (m : MachineDecl) (o : Options) (ancestors : List MachineDecl) :
    Prop where
  overrides : m.OverridesAllowed o ancestors
  concrete : m.isAbstract = false → ∀ name p, nearest? namedStates (m :: ancestors) name = some p →
    p.decl.isAbstract = false
  targets : ∀ name p, nearest? namedStates (m :: ancestors) name = some p →
    ∀ t ∈ p.decl.transitions, ∃ a ∈ m :: ancestors, ∃ st ∈ a.states, st.name = t.target
  guards : ∀ name p, nearest? namedStates (m :: ancestors) name = some p →
    ∀ t ∈ p.decl.transitions, ∀ reference, t.guard = some (.named reference) →
      ∃ a ∈ m :: ancestors, ∃ g ∈ a.guards, g.name = some reference
  actions : ∀ name p, nearest? namedStates (m :: ancestors) name = some p →
    ∀ reference, ActionUse.named reference ∈ p.decl.actionUses →
      ∃ a ∈ m :: ancestors, ∃ action ∈ a.actions, action.name = some reference

/-- A system whose machines have distinct names, and each a lineage to which it conforms. -/
structure SystemDecl.Buildable (s : SystemDecl) (o : Options) : Prop where
  distinct : (s.machines.map MachineDecl.name).Nodup
  conform : ∀ m ∈ s.machines, ∃ ancestors, s.Lineage o m ancestors ∧ m.Conforms o ancestors

/-! ## What a lineage declares -/

section Declares

variable {lineage : List MachineDecl} {name : String}

theorem nearest?_state_isSome :
    (nearest? MachineDecl.namedStates lineage name).isSome = true ↔
      ∃ a ∈ lineage, ∃ st ∈ a.states, st.name = name := by
  simp [nearest?_isSome, MachineDecl.namedStates, MachineDecl.placedStates, PlacedState.entry]

theorem nearest?_guard_isSome :
    (nearest? MachineDecl.namedGuards lineage name).isSome = true ↔
      ∃ a ∈ lineage, ∃ g ∈ a.guards, g.name = some name := by
  simp [nearest?_isSome, MachineDecl.namedGuards, List.mem_filterMap]

theorem nearest?_action_isSome :
    (nearest? MachineDecl.namedActions lineage name).isSome = true ↔
      ∃ a ∈ lineage, ∃ action ∈ a.actions, action.name = some name := by
  simp [nearest?_isSome, MachineDecl.namedActions, List.mem_filterMap]

end Declares

/-! ## The checks of a candidate -/

namespace Candidate

variable {o : Options} {m : MachineDecl} {ancestors : List MachineDecl}

/-- Reported of a machine is what is refused of it after its ancestors. -/
theorem unsupportedOverrides_ofLineage (distinct : ((m :: ancestors).map MachineDecl.name).Nodup) :
    (ofLineage o m ancestors).unsupportedOverrides = (m.ownRefused o ancestors).map fun p =>
      ⟨.unsupportedOverride, m.name, some p.decl.name⟩ := by
  rw [unsupportedOverrides, refused_ofLineage, name_ofLineage,
    MachineDecl.refused_filter distinct (List.nil_append _).symm]
  rfl

theorem abstractStates_eq_nil_iff (c : Candidate) :
    c.inheritedAbstractStates = [] ∧ c.ownAbstractStates = [] ↔
      (c.isAbstract = false → ∀ p ∈ c.states.values, p.decl.isAbstract = false) := by
  unfold inheritedAbstractStates ownAbstractStates abstractStates
  cases c.isAbstract with
  | true => simp
  | false =>
    simp only [Bool.false_eq_true, ↓reduceIte, List.map_eq_nil_iff, List.filter_eq_nil_iff,
      Table.values, List.mem_map, Bool.and_eq_true, not_and, forall_const]
    constructor
    · rintro ⟨inherited, own⟩ p ⟨entry, member, rfl⟩
      by_contra isAbstract
      rw [Bool.not_eq_false] at isAbstract
      have notInherited := inherited entry member isAbstract
      have notOwn := own entry member isAbstract
      simp_all
    · intro concrete
      constructor
      · intro entry member isAbstract
        simp [concrete _ ⟨entry, member, rfl⟩] at isAbstract
      · intro entry member isAbstract
        simp [concrete _ ⟨entry, member, rfl⟩] at isAbstract

private theorem unknownTargets_eq_nil_iff (c : Candidate) :
    c.unknownTargets = [] ↔
      ∀ p ∈ c.states.values, ∀ t ∈ p.decl.transitions, c.states.contains t.target = true := by
  simp only [unknownTargets, transitions, stateDecls, List.map_eq_nil_iff, List.filter_eq_nil_iff,
    List.mem_flatMap, List.mem_map, Bool.not_eq_true', Bool.not_eq_false]
  constructor
  · intro each p member t moves
    exact each t ⟨p.decl, ⟨p, member, rfl⟩, moves⟩
  · rintro each t ⟨_, ⟨p, member, rfl⟩, moves⟩
    exact each p member t moves

private theorem unknownGuards_eq_nil_iff (c : Candidate) :
    c.unknownGuards = [] ↔
      ∀ p ∈ c.states.values, ∀ t ∈ p.decl.transitions, ∀ reference,
        t.guard = some (.named reference) → c.guards.contains reference = true := by
  have named : ∀ (t : TransitionDecl) (name : String),
      t.guard.bind GuardUse.reference? = some name ↔ t.guard = some (.named name) := by
    intro t name
    rcases t.guard with _ | _ | _ <;> simp [GuardUse.reference?]
  simp only [unknownGuards, transitions, stateDecls, List.map_eq_nil_iff, List.filter_eq_nil_iff,
    List.mem_filterMap, List.mem_flatMap, List.mem_map, named, Bool.not_eq_true',
    Bool.not_eq_false]
  constructor
  · intro each p member t moves name same
    exact each name ⟨t, ⟨p.decl, ⟨p, member, rfl⟩, moves⟩, same⟩
  · rintro each name ⟨t, ⟨_, ⟨p, member, rfl⟩, moves⟩, same⟩
    exact each p member t moves name same

private theorem unknownActions_eq_nil_iff (c : Candidate) :
    c.unknownActions = [] ↔
      ∀ p ∈ c.states.values, ∀ reference, ActionUse.named reference ∈ p.decl.actionUses →
        c.actions.contains reference = true := by
  have named : ∀ (use : ActionUse) (name : String),
      use.reference? = some name ↔ use = .named name := by
    intro use name
    cases use <;> simp [ActionUse.reference?]
  simp only [unknownActions, stateDecls, List.map_eq_nil_iff, List.filter_eq_nil_iff,
    List.mem_filterMap, List.mem_flatMap, List.mem_map, named, Bool.not_eq_true',
    Bool.not_eq_false]
  constructor
  · intro each p member name used
    exact each name ⟨_, ⟨p.decl, ⟨p, member, rfl⟩, used⟩, rfl⟩
  · rintro each name ⟨_, ⟨_, ⟨p, member, rfl⟩, used⟩, rfl⟩
    exact each p member name used

/-- No check finds anything in the candidate. -/
structure Passes (c : Candidate) : Prop where
  overrides : c.unsupportedOverrides = []
  abstractStates : c.inheritedAbstractStates = [] ∧ c.ownAbstractStates = []
  targets : c.unknownTargets = []
  guards : c.unknownGuards = []
  actions : c.unknownActions = []

/-- After ancestors of which nothing is refused, a candidate passes exactly if the machine
conforms. -/
theorem passes_iff_conforms (distinct : ((m :: ancestors).map MachineDecl.name).Nodup)
    (clean : (mergeStates o ancestors.reverse).refused = []) :
    (ofLineage o m ancestors).Passes ↔ m.Conforms o ancestors := by
  have own :
      (ofLineage o m ancestors).unsupportedOverrides = [] ↔ m.OverridesAllowed o ancestors := by
    rw [unsupportedOverrides_ofLineage distinct, List.map_eq_nil_iff,
      MachineDecl.ownRefused_eq_nil_iff clean]
  have whole (allowed : m.OverridesAllowed o ancestors) :
      (mergeStates o (m :: ancestors).reverse).refused = [] := by
    rw [MachineDecl.refused_lineage, clean, (MachineDecl.ownRefused_eq_nil_iff clean).mpr allowed,
      List.nil_append]
  constructor
  · rintro ⟨overrides, abstractStates, targets, guards, actions⟩
    have allowed := own.mp overrides
    rw [abstractStates_eq_nil_iff, states_ofLineage (whole allowed)] at abstractStates
    rw [unknownTargets_eq_nil_iff, states_ofLineage (whole allowed)] at targets
    rw [unknownGuards_eq_nil_iff, states_ofLineage (whole allowed), guards_ofLineage] at guards
    rw [unknownActions_eq_nil_iff, states_ofLineage (whole allowed), actions_ofLineage] at actions
    simp only [Table.mem_values_iff, Table.contains_eq_isSome, get?_tableOf, nearest?_state_isSome,
      nearest?_guard_isSome, nearest?_action_isSome] at abstractStates targets guards actions
    exact ⟨allowed, fun concrete name p found => abstractStates concrete p ⟨name, found⟩,
      fun name p found => targets p ⟨name, found⟩, fun name p found => guards p ⟨name, found⟩,
      fun name p found => actions p ⟨name, found⟩⟩
  · rintro ⟨allowed, concrete, targets, guards, actions⟩
    refine ⟨own.mpr allowed, (abstractStates_eq_nil_iff _).mpr ?_,
      (unknownTargets_eq_nil_iff _).mpr ?_, (unknownGuards_eq_nil_iff _).mpr ?_,
      (unknownActions_eq_nil_iff _).mpr ?_⟩ <;>
      simp only [states_ofLineage (whole allowed), guards_ofLineage, actions_ofLineage,
        Table.mem_values_iff, Table.contains_eq_isSome, get?_tableOf, nearest?_state_isSome,
        nearest?_guard_isSome, nearest?_action_isSome]
    · rintro notAbstract p ⟨name, found⟩
      exact concrete notAbstract name p found
    · rintro p ⟨name, found⟩
      exact targets name p found
    · rintro p ⟨name, found⟩
      exact guards name p found
    · rintro p ⟨name, found⟩
      exact actions name p found

end Candidate

/-! ## The checks of a system -/

theorem repeatedNames_eq_nil_iff {seen names : List String} :
    repeatedNames seen names = [] ↔ names.Nodup ∧ ∀ name ∈ names, name ∉ seen := by
  induction names generalizing seen with
  | nil => simp [repeatedNames]
  | cons name rest ih =>
    rw [repeatedNames, List.nodup_cons]
    by_cases again : name ∈ seen
    · simp [again]
    · rw [if_neg again, ih]
      constructor
      · rintro ⟨distinct, fresh⟩
        refine ⟨⟨fun member => fresh name member (List.mem_cons_self ..), distinct⟩, ?_⟩
        intro other member
        rcases List.mem_cons.mp member with rfl | later
        · exact again
        · intro before
          exact fresh other later (List.mem_cons_of_mem _ before)
      · rintro ⟨⟨apart, distinct⟩, fresh⟩
        refine ⟨distinct, ?_⟩
        intro other member before
        rcases List.mem_cons.mp before with rfl | earlier
        · exact apart member
        · exact fresh other (List.mem_cons_of_mem _ member) earlier

namespace SystemDecl

variable {s : SystemDecl} {o : Options}

theorem duplicateMachines_eq_nil_iff :
    s.duplicateMachines = [] ↔ (s.machines.map MachineDecl.name).Nodup := by
  simp [duplicateMachines, repeatedNames_eq_nil_iff]

theorem invalidParents_eq_nil_iff (distinct : (s.machines.map MachineDecl.name).Nodup) :
    s.invalidParents o = [] ↔ ∀ m ∈ s.machines, ∃ ancestors, s.Lineage o m ancestors := by
  simp only [invalidParents, lineages, values_machineTable distinct, List.filterMap_eq_nil_iff,
    List.mem_map, forall_exists_index, and_imp, forall_apply_eq_imp_iff₂, MachineDecl.candidate,
    ← ancestors_eq_ok_iff]
  apply forall₂_congr
  intro m _
  cases m.ancestors s.machineTable o <;> simp [Except.map]

/-- The candidates are those of the machines that have a lineage; of two with one name the first
counts. -/
theorem mem_candidates_iff {c : Candidate} :
    c ∈ s.candidates o ↔ ∃ m, s.declared? m.name = some m ∧ ∃ ancestors, s.Lineage o m ancestors ∧
      c = .ofLineage o m ancestors := by
  have answered (answer : Except Violation Candidate) :
      answer.toOption = some c ↔ answer = .ok c := by
    cases answer <;> simp [Except.toOption]
  simp only [candidates, lineages, List.mem_filterMap, List.mem_map, mem_values_machineTable,
    answered, ← candidate_eq_ok_iff]
  constructor
  · rintro ⟨_, ⟨m, declared, rfl⟩, found⟩
    exact ⟨m, declared, found⟩
  · rintro ⟨m, declared, found⟩
    exact ⟨_, ⟨m, declared, rfl⟩, found⟩

/-- No violation is found exactly if names are distinct, every machine has a lineage and every
candidate passes. -/
theorem violations_eq_nil_iff_passes :
    s.violations o = [] ↔ (s.machines.map MachineDecl.name).Nodup ∧
      (∀ m ∈ s.machines, ∃ ancestors, s.Lineage o m ancestors) ∧
      ∀ m ∈ s.machines, ∀ ancestors, s.Lineage o m ancestors →
        (Candidate.ofLineage o m ancestors).Passes := by
  simp only [violations, List.append_eq_nil_iff, List.flatMap_eq_nil_iff,
    duplicateMachines_eq_nil_iff]
  constructor
  · rintro ⟨⟨⟨⟨⟨⟨⟨distinct, parents⟩, overrides⟩, inherited⟩, own⟩, targets⟩, guards⟩, actions⟩
    refine ⟨distinct, (invalidParents_eq_nil_iff distinct).mp parents, ?_⟩
    intro m member ancestors lineage
    have found : Candidate.ofLineage o m ancestors ∈ s.candidates o :=
      mem_candidates_iff.mpr ⟨m, declared?_of_mem distinct member, ancestors, lineage, rfl⟩
    exact ⟨overrides _ found, ⟨inherited _ found, own _ found⟩, targets _ found, guards _ found,
      actions _ found⟩
  · rintro ⟨distinct, lineages, passes⟩
    have each : ∀ c ∈ s.candidates o, c.Passes := by
      intro c found
      obtain ⟨m, declared, ancestors, lineage, rfl⟩ := mem_candidates_iff.mp found
      exact passes m (mem_of_declared? declared) ancestors lineage
    have parents := (invalidParents_eq_nil_iff distinct).mpr lineages
    exact ⟨⟨⟨⟨⟨⟨⟨distinct, parents⟩, fun c found => (each c found).overrides⟩,
      fun c found => (each c found).abstractStates.1⟩,
      fun c found => (each c found).abstractStates.2⟩, fun c found => (each c found).targets⟩,
      fun c found => (each c found).guards⟩, fun c found => (each c found).actions⟩

/-- Nothing is refused of any lineage. -/
def Clean (s : SystemDecl) (o : Options) : Prop :=
  ∀ m ∈ s.machines, ∀ ancestors, s.Lineage o m ancestors →
    (mergeStates o ancestors.reverse).refused = [] ∧
      (mergeStates o (m :: ancestors).reverse).refused = []

/-- In a conforming system every lineage of a machine is the one to which it conforms. -/
theorem Buildable.conforms (buildable : s.Buildable o) {m : MachineDecl}
    {ancestors : List MachineDecl} (member : m ∈ s.machines) (lineage : s.Lineage o m ancestors) :
    m.Conforms o ancestors := by
  obtain ⟨others, other, conforms⟩ := buildable.conform m member
  rwa [lineage.leads.unique other.leads]

theorem Buildable.clean (buildable : s.Buildable o) : s.Clean o := by
  intro m member ancestors lineage
  refine refused_lineage_eq_nil ?_ member lineage
  intro m member ancestors lineage clean
  exact (MachineDecl.ownRefused_eq_nil_iff clean).mpr (buildable.conforms member lineage).overrides

/-- Nothing is wrong with a system exactly if it meets the conditions on its declarations. -/
theorem violations_eq_nil_iff : s.violations o = [] ↔ s.Buildable o := by
  rw [violations_eq_nil_iff_passes]
  constructor
  · rintro ⟨distinct, lineages, passes⟩
    have clean : s.Clean o := by
      intro m member ancestors lineage
      refine refused_lineage_eq_nil ?_ member lineage
      intro m member ancestors lineage _
      have overrides := (passes m member ancestors lineage).overrides
      rwa [Candidate.unsupportedOverrides_ofLineage lineage.distinct,
        List.map_eq_nil_iff] at overrides
    refine ⟨distinct, ?_⟩
    intro m member
    obtain ⟨ancestors, lineage⟩ := lineages m member
    exact ⟨ancestors, lineage, (Candidate.passes_iff_conforms lineage.distinct
      (clean m member ancestors lineage).1).mp (passes m member ancestors lineage)⟩
  · intro buildable
    refine ⟨buildable.distinct, ?_, ?_⟩
    · intro m member
      obtain ⟨ancestors, lineage, _⟩ := buildable.conform m member
      exact ⟨ancestors, lineage⟩
    · intro m member ancestors lineage
      exact (Candidate.passes_iff_conforms lineage.distinct
        (buildable.clean m member ancestors lineage).1).mpr (buildable.conforms member lineage)

/-- Without violations, putting uses in place never fails. -/
theorem exists_resolve_of_violations (found : s.violations o = []) {c : Candidate}
    (member : c ∈ s.candidates o) : ∃ m, c.resolve = .ok m := by
  simp only [violations, List.append_eq_nil_iff, List.flatMap_eq_nil_iff] at found
  obtain ⟨⟨_, guards⟩, actions⟩ := found
  exact Candidate.exists_resolve_iff.mpr ⟨guards c member, actions c member⟩

/-- A system is built exactly if it has no violations. -/
theorem exists_build_iff_violations : (∃ system, s.build o = .ok system) ↔ s.violations o = [] := by
  rw [build]
  cases found : s.violations o with
  | cons v rest => simp
  | nil =>
    simp only [iff_true]
    obtain ⟨machines, done⟩ := exists_mapM_iff.mpr fun c => exists_resolve_of_violations found
    exact ⟨_, by rw [done]; rfl⟩

/-! ## The machines that are built -/

/-- A machine is what its declaration is resolved to in its lineage. -/
def Resolves (s : SystemDecl) (o : Options) (m : MachineDecl) (resolved : Machine) : Prop :=
  ∃ ancestors, s.Lineage o m ancestors ∧ (Candidate.ofLineage o m ancestors).resolve = .ok resolved

/-- A declaration is resolved to one machine. -/
theorem Resolves.unique {m : MachineDecl} {first second : Machine} (one : s.Resolves o m first)
    (other : s.Resolves o m second) : first = second := by
  obtain ⟨ancestors, lineage, done⟩ := one
  obtain ⟨ancestors', lineage', done'⟩ := other
  obtain rfl := lineage.leads.unique lineage'.leads
  exact Except.ok.inj (done.symm.trans done')

theorem Resolves.name {m : MachineDecl} {resolved : Machine} (resolves : s.Resolves o m resolved) :
    resolved.name = m.name := by
  obtain ⟨_, _, done⟩ := resolves
  obtain ⟨_, _, rfl⟩ := Candidate.resolve_eq_ok_iff.mp done
  rfl

/-- The candidates of a conforming system are resolved machine by machine. -/
private theorem resolves_of_candidates (buildable : s.Buildable o) {resolved : List Machine}
    (done : (s.candidates o).mapM Candidate.resolve = .ok resolved) :
    List.Forall₂ (s.Resolves o) s.machines resolved := by
  have lineages := buildable.conform
  rw [mapM_eq_ok_iff, candidates, SystemDecl.lineages,
    values_machineTable buildable.distinct] at done
  suffices general : ∀ machines : List MachineDecl,
      (∀ m ∈ machines, ∃ ancestors, s.Lineage o m ancestors ∧ m.Conforms o ancestors) →
      ∀ resolved, List.Forall₂ (fun c m => c.resolve = .ok m)
        ((machines.map fun m => m.candidate s.machineTable o).filterMap Except.toOption) resolved →
      List.Forall₂ (s.Resolves o) machines resolved from general _ lineages _ done
  intro machines
  induction machines with
  | nil =>
    intro _ resolved done
    cases done
    exact .nil
  | cons m rest ih =>
    intro each resolved done
    obtain ⟨ancestors, lineage, _⟩ := each m (List.mem_cons_self ..)
    rw [List.map_cons, candidate_eq_ok_iff.mpr ⟨ancestors, lineage, rfl⟩] at done
    cases done with
    | cons first later =>
      exact .cons ⟨ancestors, lineage, first⟩
        (ih (fun other member => each other (List.mem_cons_of_mem _ member)) _ later)

private theorem names_of_resolves {machines : List MachineDecl} {resolved : List Machine}
    (each : List.Forall₂ (s.Resolves o) machines resolved) :
    resolved.map Machine.name = machines.map MachineDecl.name := by
  induction each with
  | nil => rfl
  | cons first _ ih => rw [List.map_cons, List.map_cons, ih, first.name]

theorem buildable_of_build {system : System} (built : s.build o = .ok system) : s.Buildable o :=
  violations_eq_nil_iff.mp (exists_build_iff_violations.mp ⟨system, built⟩)

/-- Each machine that is declared is resolved, in order, and stands under its name. -/
theorem machines_of_build {system : System} (built : s.build o = .ok system) :
    List.Forall₂ (s.Resolves o) s.machines system.machines.values ∧
      system.machines.entries = system.machines.values.map fun m => (m.name, m) := by
  have buildable := buildable_of_build built
  rw [build, violations_eq_nil_iff.mpr buildable] at built
  cases done : (s.candidates o).mapM Candidate.resolve with
  | error v => simp [done, bind, Except.bind] at built
  | ok resolved =>
    have each := resolves_of_candidates buildable done
    have entries : (Table.ofList (resolved.map fun m => (m.name, m))).entries =
        resolved.map fun m => (m.name, m) :=
      Table.entries_ofList (by simpa [Function.comp_def, names_of_resolves each] using
        buildable.distinct)
    obtain rfl : _ = system := by simpa [done, bind, Except.bind] using built
    have values : (Table.ofList (resolved.map fun m => (m.name, m))).values = resolved := by
      simp [Table.values, entries, Function.comp_def]
    rw [values]
    exact ⟨each, entries⟩

/-- Every machine of a built system is resolved from a declaration. -/
theorem exists_resolves {system : System} (built : s.build o = .ok system) {resolved : Machine}
    (member : resolved ∈ system.machines.values) : ∃ m ∈ s.machines, s.Resolves o m resolved :=
  exists_left_of_forall₂ (machines_of_build built).1 member

/-- Every declaration is resolved to the machine of its name. -/
theorem exists_machine {system : System} (built : s.build o = .ok system) {m : MachineDecl}
    (member : m ∈ s.machines) :
    ∃ resolved, system.machine m.name = .ok resolved ∧ s.Resolves o m resolved := by
  obtain ⟨each, entries⟩ := machines_of_build built
  obtain ⟨resolved, held, resolves⟩ := exists_right_of_forall₂ each member
  have found : system.machines.get? m.name = some resolved := by
    rw [Table.get?_eq_some_iff, entries, ← resolves.name]
    exact List.mem_map_of_mem held
  exact ⟨resolved, by rw [System.machine, found], resolves⟩

theorem names_of_build {system : System} (built : s.build o = .ok system) :
    system.machines.names = s.machines.map MachineDecl.name := by
  obtain ⟨each, entries⟩ := machines_of_build built
  rw [← names_of_resolves each, Table.names, entries, List.map_map]
  rfl

/-- A name that is not declared is not there. -/
theorem machine_of_undeclared {system : System} (built : s.build o = .ok system) {name : String}
    (undeclared : s.declared? name = none) :
    system.machine name = .error (.unknownMachine name) := by
  have absent : system.machines.get? name = none := by
    rw [Table.get?_eq_none_iff, names_of_build built]
    intro member
    obtain ⟨m, declared, rfl⟩ := List.mem_map.mp member
    simpa using List.find?_eq_none.mp undeclared m declared
  rw [System.machine, absent]

/-- What can be decided of the result of a build holds of a system that was built. -/
theorem exists_built {P : System → Prop} [DecidablePred P]
    (holds : (match s.build o with
      | .ok system => decide (P system)
      | .error _ => false) = true) : ∃ system, s.build o = .ok system ∧ P system := by
  cases built : s.build o with
  | error v => simp [built] at holds
  | ok system => exact ⟨system, rfl, by simpa [built] using holds⟩

/-- A system is built if and only if it meets the conditions on its declarations. -/
theorem build_succeeds_iff (s : SystemDecl) (o : Options) :
    (∃ system, s.build o = .ok system) ↔ s.Buildable o := by
  rw [exists_build_iff_violations, violations_eq_nil_iff]

end SystemDecl

end StateMachines
