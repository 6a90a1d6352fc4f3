import StateMachines.Proofs.LateBinding

/-! # Collaborations

Which machines collaborate is read off the declarations through all of resolution: which states are
in force, what their uses of actions mean there, and which events are raised and awaited in the end.
The events of a machine are first occurrences in what its states in force declare, in merged order,
so an action that no state uses adds nothing. The collaborations are listed by three loops, one
inside the other, over lists without repetitions; so nothing is listed twice, and the order is that
of the loops.
-/

namespace StateMachines

/-! ## Events in declarations -/

/-- The states that are in force in a lineage, in merged order. -/
def statesInForce (lineage : List MachineDecl) : List PlacedState :=
  (Candidate.tableOf MachineDecl.namedStates lineage).values

/-- The event that is raised where an action is used by a state of a lineage. -/
def ActionUse.raisedEvent? (lineage : List MachineDecl) : ActionUse → Option String
  | inline action => action.raisedEvent?
  | named name => (nearest? MachineDecl.namedActions lineage name).bind Action.raisedEvent?

/-- The events that the transitions of the states in force wait for, in order. -/
def eventsAwaited (lineage : List MachineDecl) : List String :=
  (statesInForce lineage).flatMap fun p => p.decl.transitions.map TransitionDecl.event

/-- The events that are raised where the states in force use actions, in order. -/
def eventsRaised (lineage : List MachineDecl) : List String :=
  (statesInForce lineage).flatMap fun p =>
    p.decl.actionUses.filterMap (ActionUse.raisedEvent? lineage)

namespace Machine

/-- Some state has a transition on the event. -/
def Awaits (m : Machine) (event : String) : Prop :=
  ∃ st ∈ m.states.values, ∃ t ∈ st.transitions, t.event = event

/-- Some action that is attached to a state raises the event. -/
def Raises (m : Machine) (event : String) : Prop :=
  ∃ st ∈ m.states.values, ∃ a ∈ st.actions, a.raisedEvent? = some event

/-- The events of a machine with a lineage: those that its states wait for and raise are those of
the declarations in force, and they are listed by first occurrence. -/
structure HasEvents (m : Machine) (lineage : List MachineDecl) : Prop where
  awaited :
    (m.states.values.flatMap fun st => st.transitions.map Transition.event) = eventsAwaited lineage
  raised : (m.states.values.flatMap fun st => st.actions.filterMap Action.raisedEvent?) =
    eventsRaised lineage
  inputs : FirstOccurrences (eventsAwaited lineage) m.inputEvents
  outputs : FirstOccurrences (eventsRaised lineage) m.outputEvents
  handles : ∀ event, m.handles event = true ↔ m.Awaits event
  raises : ∀ event, event ∈ m.outputEvents ↔ m.Raises event

theorem inputEvents_eq (m : Machine) : m.inputEvents =
    (m.states.values.flatMap fun st => st.transitions.map Transition.event).eraseDups := by
  simp [inputEvents, edges, List.map_flatMap, Function.comp_def]

theorem outputEvents_eq (m : Machine) : m.outputEvents =
    (m.states.values.flatMap fun st => st.actions.filterMap Action.raisedEvent?).eraseDups := by
  rw [outputEvents, List.filterMap_flatMap]

theorem handles_iff {m : Machine} {event : String} :
    m.handles event = true ↔ m.Awaits event := by
  simp [handles, inputEvents_eq, Awaits]

theorem mem_outputEvents {m : Machine} {event : String} :
    event ∈ m.outputEvents ↔ m.Raises event := by
  simp [outputEvents_eq, Raises]

theorem nodup_outputEvents (m : Machine) : m.outputEvents.Nodup :=
  (Table.firstOccurrences_eraseDups _).distinct

end Machine

/-! ## Events of resolved machines -/

section Means

variable {α β γ : Type} {related : α → β → Prop} {xs : List α} {ys : List β}

theorem map_eq_of_forall₂ {f : α → γ} {g : β → γ} (each : List.Forall₂ related xs ys)
    (same : ∀ x y, related x y → f x = g y) : xs.map f = ys.map g := by
  rw [← List.forall₂_eq_eq_eq, List.forall₂_map_left_iff, List.forall₂_map_right_iff]
  exact each.imp same

theorem flatMap_eq_of_forall₂ {f : α → List γ} {g : β → List γ} (each : List.Forall₂ related xs ys)
    (same : ∀ x y, related x y → f x = g y) : xs.flatMap f = ys.flatMap g := by
  rw [List.flatMap_def, List.flatMap_def, map_eq_of_forall₂ each same]

variable {lineage : List MachineDecl} {guards : Table Guard}

/-- What a use means raises what the use says. -/
theorem ActionUse.Means.raisedEvent? {use : ActionUse} {meant : Action}
    (means : use.Means (Candidate.tableOf MachineDecl.namedActions lineage) meant) :
    use.raisedEvent? lineage = meant.raisedEvent? := by
  cases use with
  | inline action => exact congrArg Action.raisedEvent? means
  | named name =>
    have held : nearest? MachineDecl.namedActions lineage name = some meant := by
      rw [← Candidate.get?_tableOf]
      exact means
    rw [ActionUse.raisedEvent?, held, Option.bind_some]

/-- The actions that are attached to a state are what its uses mean, in order. -/
theorem PlacedState.Means.actions {actions : Table Action} {p : PlacedState} {meant : State}
    (means : p.Means actions guards meant) :
    List.Forall₂ (ActionUse.Means actions) p.decl.actionUses meant.actions := by
  refine List.rel_append (List.rel_append means.entry ?_) means.exit
  exact List.rel_flatMap means.transitions fun _ _ moving => moving.actions

theorem PlacedState.Means.raised {p : PlacedState} {meant : State}
    (means : p.Means (Candidate.tableOf MachineDecl.namedActions lineage) guards meant) :
    p.decl.actionUses.filterMap (ActionUse.raisedEvent? lineage) =
      meant.actions.filterMap Action.raisedEvent? := by
  have same := map_eq_of_forall₂ means.actions fun _ _ acting => acting.raisedEvent?
  simpa only [List.filterMap_map, Function.id_comp] using congrArg (List.filterMap id) same

theorem PlacedState.Means.awaited {actions : Table Action} {p : PlacedState} {meant : State}
    (means : p.Means actions guards meant) :
    p.decl.transitions.map TransitionDecl.event = meant.transitions.map Transition.event :=
  map_eq_of_forall₂ means.transitions fun _ _ moving => moving.event.symm

end Means

/-- The states of a machine are what those of its candidate mean, in order. -/
theorem Candidate.states_of_resolve {c : Candidate} {m : Machine} (done : c.resolve = .ok m) :
    List.Forall₂ (PlacedState.Means m.actions m.guards) c.states.values m.states.values := by
  obtain ⟨states, put, rfl⟩ := resolve_eq_ok_iff.mp done
  rw [Table.values, Table.values, List.forall₂_map_left_iff, List.forall₂_map_right_iff]
  refine (Table.map?_eq_ok_iff.mp put).imp fun _ _ changed => ?_
  exact resolveState_eq_ok_iff.mp changed.2

/-- A machine that is resolved where nothing is refused has the events of its lineage. -/
theorem Machine.hasEvents_of_resolve {o : Options} {m : MachineDecl} {ancestors : List MachineDecl}
    {resolved : Machine} (clean : (mergeStates o (m :: ancestors).reverse).refused = [])
    (done : (Candidate.ofLineage o m ancestors).resolve = .ok resolved) :
    resolved.HasEvents (m :: ancestors) := by
  have means := Candidate.states_of_resolve done
  rw [Candidate.states_ofLineage clean, (Machine.hasTables_of_resolve done).actions] at means
  have awaited := (flatMap_eq_of_forall₂ means fun _ _ state => state.awaited).symm
  have raised := (flatMap_eq_of_forall₂ means fun _ _ state => state.raised).symm
  refine ⟨awaited, raised, ?_, ?_, fun _ => handles_iff, fun _ => mem_outputEvents⟩
  · rw [inputEvents_eq, awaited]
    exact Table.firstOccurrences_eraseDups _
  · rw [outputEvents_eq, raised]
    exact Table.firstOccurrences_eraseDups _

/-! ## The collaborations of a system -/

/-- One collaboration is listed before another one: by the places of the producers, by the events in
the order in which the producer raises them, and by the places of the consumers. -/
inductive Collaboration.Before (places : List String) (system : System)
    (first second : Collaboration) : Prop
  | producer (earlier : places.idxOf first.producer < places.idxOf second.producer)
  | event (same : first.producer = second.producer) {m : Machine}
      (found : system.machine first.producer = .ok m)
      (earlier : m.outputEvents.idxOf first.event < m.outputEvents.idxOf second.event)
  | consumer (same : first.producer = second.producer) (sameEvent : first.event = second.event)
      (earlier : places.idxOf first.consumer < places.idxOf second.consumer)

theorem Collaboration.Before.ne {places : List String} {system : System}
    {first second : Collaboration} (before : first.Before places system second) :
    first ≠ second := by
  rintro rfl
  cases before <;> exact Nat.lt_irrefl _ ‹_›

namespace System

/-- The collaborations of a system whose machines are declared under the given names, in this order:
two different machines that are not abstract, of which one raises an event that the other one waits
for. Each is listed once, in order. -/
structure Collaborates (system : System) (places : List String) : Prop where
  members : ∀ producer event consumer,
    ⟨producer, event, consumer⟩ ∈ system.collaborations ↔ producer ≠ consumer ∧
      (∃ m, system.machine producer = .ok m ∧ m.isAbstract = false ∧ m.Raises event) ∧
      ∃ m, system.machine consumer = .ok m ∧ m.isAbstract = false ∧ m.Awaits event
  distinct : system.collaborations.Nodup
  ordered : system.collaborations.Pairwise (Collaboration.Before places system)

variable {system : System}

section Keyed

variable (keyed : system.machines.entries = system.machines.values.map fun m => (m.name, m))
include keyed

theorem machine_eq_ok_iff {name : String} {m : Machine} :
    system.machine name = .ok m ↔ m ∈ system.machines.values ∧ m.name = name := by
  have held : system.machine name = .ok m ↔ system.machines.get? name = some m := by
    rw [System.machine]
    cases system.machines.get? name <;> simp
  rw [held, Table.get?_eq_some_iff, keyed]
  simp only [List.mem_map, Prod.mk.injEq]
  constructor
  · rintro ⟨_, member, rfl, rfl⟩
    exact ⟨member, rfl⟩
  · rintro ⟨member, rfl⟩
    exact ⟨m, member, rfl, rfl⟩

/-- The machines that are not abstract stand in the order of their names. -/
theorem concreteMachines_ordered : system.concreteMachines.Pairwise fun first second =>
    system.machines.names.idxOf first.name < system.machines.names.idxOf second.name := by
  have names : system.machines.names = system.machines.values.map Machine.name := by
    rw [Table.names, keyed, List.map_map]
    rfl
  have ordered := pairwise_idxOf_of_nodup system.machines.names_nodup
  rw [← List.pairwise_map (f := Machine.name)
    (R := fun first second => system.machines.names.idxOf first <
      system.machines.names.idxOf second)]
  refine ordered.sublist ?_
  rw [names]
  exact List.filter_sublist.map _

theorem mem_collaborations {producer event consumer : String} :
    ⟨producer, event, consumer⟩ ∈ system.collaborations ↔ producer ≠ consumer ∧
      (∃ m, system.machine producer = .ok m ∧ m.isAbstract = false ∧ m.Raises event) ∧
      ∃ m, system.machine consumer = .ok m ∧ m.isAbstract = false ∧ m.Awaits event := by
  simp only [collaborations, concreteMachines, machine_eq_ok_iff keyed, List.mem_flatMap,
    List.mem_map, List.mem_filter, Collaboration.mk.injEq, Bool.and_eq_true, bne_iff_ne,
    Bool.not_eq_true', Machine.handles_iff, Machine.mem_outputEvents]
  constructor
  · rintro ⟨p, ⟨declared, concrete⟩, _, raises, c, ⟨⟨declared', concrete'⟩, apart, awaits⟩,
      rfl, rfl, rfl⟩
    exact ⟨Ne.symm apart, ⟨p, ⟨declared, rfl⟩, concrete, raises⟩,
      c, ⟨declared', rfl⟩, concrete', awaits⟩
  · rintro ⟨apart, ⟨p, ⟨declared, rfl⟩, concrete, raises⟩,
      c, ⟨declared', rfl⟩, concrete', awaits⟩
    exact ⟨p, ⟨declared, concrete⟩, event, raises, c,
      ⟨⟨declared', concrete'⟩, Ne.symm apart, awaits⟩, rfl, rfl, rfl⟩

/-- The loops over producers, events and consumers list the collaborations in order. -/
theorem collaborations_ordered :
    system.collaborations.Pairwise (Collaboration.Before system.machines.names system) := by
  have machines := concreteMachines_ordered keyed
  rw [collaborations, List.pairwise_flatMap]
  constructor
  · intro producer member
    have found : system.machine producer.name = .ok producer :=
      (machine_eq_ok_iff keyed).mpr ⟨(List.mem_filter.mp member).1, rfl⟩
    rw [List.pairwise_flatMap]
    constructor
    · intro event _
      rw [List.pairwise_map]
      exact (machines.filter _).imp fun earlier => .consumer rfl rfl earlier
    · refine (pairwise_idxOf_of_nodup producer.nodup_outputEvents).imp ?_
      intro event event' earlier first listed second listed'
      obtain ⟨_, -, rfl⟩ := List.mem_map.mp listed
      obtain ⟨_, -, rfl⟩ := List.mem_map.mp listed'
      exact .event rfl found earlier
  · refine machines.imp ?_
    intro producer producer' earlier first listed second listed'
    obtain ⟨_, -, listed⟩ := List.mem_flatMap.mp listed
    obtain ⟨_, -, rfl⟩ := List.mem_map.mp listed
    obtain ⟨_, -, listed'⟩ := List.mem_flatMap.mp listed'
    obtain ⟨_, -, rfl⟩ := List.mem_map.mp listed'
    exact .producer earlier

theorem collaborates_of_keyed : system.Collaborates system.machines.names where
  members := fun _ _ _ => mem_collaborations keyed
  distinct := (collaborations_ordered keyed).imp Collaboration.Before.ne
  ordered := collaborations_ordered keyed

end Keyed

end System

namespace SystemDecl

/-- In a built system every machine has the events of its lineage, and the collaborations are the
pairs of different machines, neither of them abstract, that are joined by an event, in the order of
declaration. -/
theorem events_and_collaborations (s : SystemDecl) (o : Options) {system : System}
    (built : s.build o = .ok system) :
    (∀ machine ∈ system.machines.values, ∃ m ∈ s.machines, ∃ ancestors, m.name = machine.name ∧
      s.Ancestry m ancestors ∧ machine.HasEvents (m :: ancestors)) ∧
    system.Collaborates (s.machines.map MachineDecl.name) := by
  constructor
  · intro machine member
    obtain ⟨m, declared, resolves⟩ := exists_resolves built member
    have named := resolves.name
    obtain ⟨ancestors, lineage, resolved⟩ := resolves
    have clean := ((buildable_of_build built).clean m declared ancestors lineage).2
    exact ⟨m, declared, ancestors, named.symm, lineage.leads,
      Machine.hasEvents_of_resolve clean resolved⟩
  · rw [← names_of_build built]
    exact System.collaborates_of_keyed (machines_of_build built).2

/-- A client and a server. The client inherits a state that raises a request and overrides one that
would raise an alarm; it has an action of its own that no state uses. The server answers requests,
its own included. -/
def clientAndServer : SystemDecl :=
  let template := ((MachineDecl.ofName "template").asAbstract.withState
    (((StateDecl.ofName "asking").onEntry (.named "ask")).on (.ofEvent "reply" "idle"))).withState
      ((StateDecl.ofName "idle").asVirtual.onEntry (.inline (.raise "alarm")))
  let client := ((((MachineDecl.ofName "client").extending "template").withAction
    ((Action.raise "request").named "ask")).withAction
      ((Action.raise "unused").named "spare")).withState (StateDecl.ofName "idle")
  let server := (MachineDecl.ofName "server").withState ((StateDecl.ofName "serving").on
    (((TransitionDecl.ofEvent "request" "serving").andThen (.inline (.raise "reply"))).andThen
      (.inline (.raise "request"))))
  ⟨"system", [client, server, template.withAction ((Action.raise "question").named "ask")]⟩

theorem clientAndServer_builds : ∃ system, clientAndServer.build .standard = .ok system ∧
    system.collaborations = [⟨"client", "request", "server"⟩, ⟨"server", "reply", "client"⟩] ∧
    ∃ client ∈ system.machines.values, client.name = "client" ∧ client.outputEvents = ["request"] :=
  exists_built (by decide +kernel)

theorem events_and_collaborations_clientAndServer :
    ∃ system, clientAndServer.build .standard = .ok system ∧
      system.collaborations = [⟨"client", "request", "server"⟩, ⟨"server", "reply", "client"⟩] ∧
      (∃ client ∈ system.machines.values, client.name = "client" ∧
        client.outputEvents = ["request"] ∧ ∃ m ∈ clientAndServer.machines, ∃ ancestors,
          m.name = client.name ∧ clientAndServer.Ancestry m ancestors ∧
            client.HasEvents (m :: ancestors)) ∧
      system.Collaborates ["client", "server", "template"] := by
  obtain ⟨system, built, listed, client, member, named, raised⟩ := clientAndServer_builds
  obtain ⟨machines, collaborates⟩ := events_and_collaborations clientAndServer .standard built
  exact ⟨system, built, listed, ⟨client, member, named, raised, machines client member⟩,
    collaborates⟩

end SystemDecl

end StateMachines
