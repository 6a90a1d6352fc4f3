import StateMachines.Proofs.Extension

/-! # Flattening

What is merged for a machine can be declared at once, by a machine without a parent. Such a machine
merges nothing, so its tables are the ones that it was made from; it is checked and resolved by
these alone, and so nothing but the ancestors and the origin of states tells it from the machine
that inherits. Inheritance only saves writing.
-/

namespace StateMachines

/-- The machine that declares by itself what is merged in a candidate. -/
def Candidate.flatten (c : Candidate) : MachineDecl where
  name := c.name
  states := c.stateDecls
  localContext := some (c.localContext.entries.map fun (name, value) => ⟨name, value⟩)
  persistentContext := some (c.persistentContext.entries.map fun (name, value) => ⟨name, value⟩)
  guards := c.guards.values
  actions := c.actions.values
  parent := none
  isAbstract := c.isAbstract

/-- The state as one that a given machine declares. -/
def PlacedState.relocate (origin : String) (p : PlacedState) : PlacedState := ⟨p.decl, origin⟩

/-- The machine without ancestors, whose states are all its own. -/
def Machine.flatten (m : Machine) : Machine :=
  { m with ancestors := [], states := m.states.map fun st => { st with declaredIn := m.name } }

namespace Machine

@[simp] theorem inputEvents_flatten (m : Machine) : m.flatten.inputEvents = m.inputEvents := by
  simp [inputEvents, edges, flatten, List.flatMap_map, List.map_flatMap, Function.comp_def]

@[simp] theorem outputEvents_flatten (m : Machine) : m.flatten.outputEvents = m.outputEvents := by
  rw [outputEvents, outputEvents, flatten, Table.values_map, List.flatMap_map]
  rfl

end Machine

/-! ## What is declared at once -/

namespace Candidate

variable {o : Options} {c : Candidate}

/-- What stands in the tables of a candidate stands there under its own name. -/
structure OwnNames (c : Candidate) : Prop where
  states : ∀ entry ∈ c.states.entries, entry.2.decl.name = entry.1
  actions : ∀ entry ∈ c.actions.entries, entry.2.name = some entry.1
  guards : ∀ entry ∈ c.guards.entries, entry.2.name = some entry.1

theorem ownNames_ofLineage {m : MachineDecl} {ancestors : List MachineDecl}
    (clean : (mergeStates o (m :: ancestors).reverse).refused = []) :
    (ofLineage o m ancestors).OwnNames where
  states entry member := by
    rw [states_ofLineage clean] at member
    obtain ⟨a, -, declared⟩ := mem_of_mem_tableOf member
    exact (MachineDecl.mem_namedStates.mp declared).2.1
  actions entry member := by
    rw [actions_ofLineage] at member
    obtain ⟨a, -, declared⟩ := mem_of_mem_tableOf member
    obtain ⟨action, -, entered⟩ := List.mem_filterMap.mp declared
    obtain ⟨name, named, rfl⟩ := Option.map_eq_some_iff.mp entered
    exact named
  guards entry member := by
    rw [guards_ofLineage] at member
    obtain ⟨a, -, declared⟩ := mem_of_mem_tableOf member
    obtain ⟨g, -, entered⟩ := List.mem_filterMap.mp declared
    obtain ⟨name, named, rfl⟩ := Option.map_eq_some_iff.mp entered
    exact named

section OwnNames

variable (own : c.OwnNames)
include own

theorem namedStates_flatten :
    c.flatten.namedStates = (c.states.map (.relocate c.name)).entries := by
  simp only [MachineDecl.namedStates, MachineDecl.placedStates, flatten, stateDecls, Table.values,
    Table.map, List.map_map]
  apply List.map_congr_left
  intro entry member
  exact Prod.ext (own.states entry member) rfl

theorem namedActions_flatten : c.flatten.namedActions = c.actions.entries := by
  change (c.actions.entries.map Prod.snd).filterMap _ = _
  rw [List.filterMap_map]
  refine (List.filterMap_congr ?_).trans List.filterMap_some
  intro entry member
  rw [Function.comp_apply, own.actions entry member]
  rfl

theorem namedGuards_flatten : c.flatten.namedGuards = c.guards.entries := by
  change (c.guards.entries.map Prod.snd).filterMap _ = _
  rw [List.filterMap_map]
  refine (List.filterMap_congr ?_).trans List.filterMap_some
  intro entry member
  rw [Function.comp_apply, own.guards entry member]
  rfl

/-- Nothing is refused of states that are declared once. -/
theorem refused_flatten : (mergeStates o [c.flatten].reverse).refused = [] := by
  rw [List.reverse_singleton, MergedStates.mergeStates_eq, List.flatMap_singleton]
  apply MergedStates.refused_eq_nil_of_nodup
  have names : c.flatten.placedStates.map (fun p => p.decl.name) =
      c.flatten.namedStates.map Prod.fst := by
    rw [MachineDecl.namedStates, List.map_map]
    rfl
  rw [names, namedStates_flatten own]
  exact Table.names_nodup _

theorem states_flatten :
    (ofLineage o c.flatten []).states = c.states.map (.relocate c.name) := by
  rw [states_ofLineage (refused_flatten own), tableOf_singleton, namedStates_flatten own,
    Table.ofList_entries]

theorem actions_flatten : (ofLineage o c.flatten []).actions = c.actions := by
  rw [actions_ofLineage, tableOf_singleton, namedActions_flatten own, Table.ofList_entries]

theorem guards_flatten : (ofLineage o c.flatten []).guards = c.guards := by
  rw [guards_ofLineage, tableOf_singleton, namedGuards_flatten own, Table.ofList_entries]

end OwnNames

theorem localContext_flatten : (ofLineage o c.flatten []).localContext = c.localContext := by
  have bindings : c.flatten.localBindings = c.localContext.entries := by
    simp [MachineDecl.localBindings, flatten, Function.comp_def]
  rw [localContext_ofLineage, tableOf_singleton, bindings, Table.ofList_entries]

theorem persistentContext_flatten :
    (ofLineage o c.flatten []).persistentContext = c.persistentContext := by
  have bindings : c.flatten.persistentBindings = c.persistentContext.entries := by
    simp [MachineDecl.persistentBindings, flatten, Function.comp_def]
  rw [persistentContext_ofLineage, tableOf_singleton, bindings, Table.ofList_entries]

/-! ## Checking and resolving -/

section OwnNames

variable (own : c.OwnNames)
include own

theorem stateDecls_flatten : (ofLineage o c.flatten []).stateDecls = c.stateDecls := by
  rw [stateDecls, states_flatten own, Table.values_map, List.map_map]
  rfl

theorem passes_flatten (passes : c.Passes) : (ofLineage o c.flatten []).Passes := by
  -- The checks read no more of a state than its name and declaration, but for its origin, on which
  -- only the division of abstract states into inherited and own ones depends.
  have states : ∀ name, (ofLineage o c.flatten []).states.contains name =
      c.states.contains name := by
    intro name
    rw [states_flatten own, Table.contains, Table.names_map, Table.contains]
  refine ⟨?_, ?_, ?_, ?_, ?_⟩
  · rw [unsupportedOverrides, refused_ofLineage, refused_flatten own]
    rfl
  · refine (abstractStates_eq_nil_iff _).mpr ?_
    intro concrete placed member
    rw [states_flatten own, Table.values_map] at member
    obtain ⟨p, merged, rfl⟩ := List.mem_map.mp member
    exact (abstractStates_eq_nil_iff c).mp passes.abstractStates concrete p merged
  · rw [unknownTargets, transitions, stateDecls_flatten own]
    simp only [states]
    exact passes.targets
  · rw [unknownGuards, transitions, stateDecls_flatten own, guards_flatten own]
    exact passes.guards
  · rw [unknownActions, stateDecls_flatten own, actions_flatten own]
    exact passes.actions

/-- The candidate and the flat one resolve to the same machine, up to flattening. -/
theorem resolve_flatten {resolved : Machine} (done : c.resolve = .ok resolved) :
    (ofLineage o c.flatten []).resolve = .ok resolved.flatten := by
  obtain ⟨states, put, rfl⟩ := resolve_eq_ok_iff.mp done
  refine resolve_eq_ok_iff.mpr ⟨states.map fun st => { st with declaredIn := c.name }, ?_, ?_⟩
  · rw [states_flatten own]
    refine Table.map?_map_of_map? put ?_
    intro p st resolves
    have means := resolveState_eq_ok_iff.mp resolves
    rw [resolveState_eq_ok_iff, actions_flatten own, guards_flatten own]
    exact { means with declaredIn := rfl }
  · rw [actions_flatten own, guards_flatten own, localContext_flatten, persistentContext_flatten]
    rfl

end OwnNames

end Candidate

/-! ## Building alone -/

namespace SystemDecl

variable {s : SystemDecl} {o : Options}

/-- A machine without a parent whose candidate passes is built alone. -/
theorem build_singleton (name : String) {m : MachineDecl} (top : m.parent = none)
    (passes : (Candidate.ofLineage o m []).Passes) {resolved : Machine}
    (done : (Candidate.ofLineage o m []).resolve = .ok resolved) :
    (SystemDecl.mk name [m]).build o = .ok ⟨name, .ofList [(resolved.name, resolved)]⟩ := by
  have lineage : (SystemDecl.mk name [m]).Lineage o m [] :=
    ⟨.root top, List.nodup_singleton _, Nat.zero_le _⟩
  have distinct : ([m].map MachineDecl.name).Nodup := List.nodup_singleton _
  have clear : (SystemDecl.mk name [m]).violations o = [] := by
    refine violations_eq_nil_iff_passes.mpr ⟨distinct, ?_, ?_⟩
    · intro a member
      obtain rfl := List.mem_singleton.mp member
      exact ⟨[], lineage⟩
    · intro a member ancestors leads
      obtain rfl := List.mem_singleton.mp member
      obtain rfl := leads.leads.unique lineage.leads
      exact passes
  have candidates : (SystemDecl.mk name [m]).candidates o = [.ofLineage o m []] := by
    rw [SystemDecl.candidates, lineages, values_machineTable distinct, List.map_singleton,
      candidate_eq_ok_iff.mpr ⟨[], lineage, rfl⟩]
    rfl
  have machines : [Candidate.ofLineage o m []].mapM Candidate.resolve = .ok [resolved] :=
    mapM_eq_ok_iff.mpr (.cons done .nil)
  rw [build, clear]
  dsimp only
  rw [candidates, machines]
  rfl

/-- What is merged for a machine of a built system can be declared by one machine without a parent.
That is built alone, to the same machine, but that it has no ancestors and all states are its
own. -/
theorem flatten_builds_alone (s : SystemDecl) (o : Options) {system : System}
    (built : s.build o = .ok system) {resolved : Machine}
    (member : resolved ∈ system.machines.values) :
    ∃ c ∈ s.candidates o, c.name = resolved.name ∧ c.resolve = .ok resolved ∧
      (∀ name, (SystemDecl.mk name [c.flatten]).build o =
        .ok ⟨name, .ofList [(resolved.name, resolved.flatten)]⟩) ∧
      resolved.flatten.inputEvents = resolved.inputEvents ∧
      resolved.flatten.outputEvents = resolved.outputEvents := by
  have buildable := buildable_of_build built
  obtain ⟨m, declared, resolves⟩ := exists_resolves built member
  have named := resolves.name
  obtain ⟨ancestors, lineage, done⟩ := resolves
  have passes := (violations_eq_nil_iff_passes.mp (violations_eq_nil_iff.mpr buildable)).2.2
    m declared ancestors lineage
  have own := Candidate.ownNames_ofLineage (buildable.clean m declared ancestors lineage).2
  refine ⟨.ofLineage o m ancestors, mem_candidates_iff.mpr ⟨m, ?_, ancestors, lineage, rfl⟩,
    named.symm, done, ?_, resolved.inputEvents_flatten, resolved.outputEvents_flatten⟩
  · exact declared?_of_mem buildable.distinct declared
  · intro name
    exact build_singleton name rfl (Candidate.passes_flatten own passes)
      (Candidate.resolve_flatten own done)

theorem flatten_builds_alone_worker : ∃ system, workerOverBase.build .standard = .ok system ∧
    ∃ resolved ∈ system.machines.values, resolved.parent? = some "base" ∧
      ∃ c ∈ workerOverBase.candidates .standard, c.name = resolved.name ∧
        c.resolve = .ok resolved ∧
        (∀ name, (SystemDecl.mk name [c.flatten]).build .standard =
          .ok ⟨name, .ofList [(resolved.name, resolved.flatten)]⟩) ∧
        resolved.flatten.inputEvents = resolved.inputEvents ∧
        resolved.flatten.outputEvents = resolved.outputEvents := by
  obtain ⟨system, built, resolved, member, below⟩ := workerOverBase_builds
  exact ⟨system, built, resolved, member, below,
    flatten_builds_alone workerOverBase .standard built member⟩

end SystemDecl

end StateMachines
