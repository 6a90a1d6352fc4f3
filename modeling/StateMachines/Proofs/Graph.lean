import StateMachines.Proofs.Extension

/-! # The graph of a machine

Where every transition of a machine leads to one of its states, the queries of its graph agree: the
target of an edge is found under its name, and the source of the edge is among its predecessors.
Building a system makes sure of that, and of concrete states where a machine is concrete, so a walk
along transitions never leaves the states of the machine.
-/

namespace StateMachines

/-- The state has a transition to a name. -/
def State.leadsTo (s : State) (name : String) : Bool := s.transitions.any fun t => t.target == name

theorem State.leadsTo_iff {s : State} {name : String} :
    s.leadsTo name = true ↔ ∃ t ∈ s.transitions, t.target = name := by
  simp [leadsTo]

namespace Machine

variable {m : Machine} {name : String}

theorem mem_edges {s : State} {t : Transition} :
    (s, t) ∈ m.edges ↔ s ∈ m.states.values ∧ t ∈ s.transitions := by
  simp only [edges, List.mem_flatMap, List.mem_map, Prod.mk.injEq]
  constructor
  · rintro ⟨_, member, _, leaves, rfl, rfl⟩
    exact ⟨member, leaves⟩
  · rintro ⟨member, leaves⟩
    exact ⟨s, member, t, leaves, rfl, rfl⟩

theorem state_eq_ok_iff {s : State} : m.state name = .ok s ↔ m.states.get? name = some s := by
  rw [state]
  cases m.states.get? name <;> simp

/-! ## The scan of the edges -/

theorem isListed_concat (sources : List State) (s : State) :
    isListed (sources ++ [s]) name = (isListed sources name || s.name == name) := by
  simp [isListed]

theorem addSource_of_isListed {sources : List State} {s : State}
    (listed : isListed sources s.name = true) (t : Transition) :
    addSource name sources (s, t) = sources := by
  simp [addSource, listed]

/-- Once a state is listed, its edges change nothing. -/
theorem foldl_addSource_of_isListed {sources : List State} {s : State}
    (listed : isListed sources s.name = true) (ts : List Transition) :
    (ts.map fun t => (s, t)).foldl (addSource name) sources = sources := by
  induction ts with
  | nil => rfl
  | cons t rest ih => rw [List.map_cons, List.foldl_cons, addSource_of_isListed listed, ih]

/-- The edges of a state that is not listed yet add it once if one of them leads to the name. -/
theorem foldl_addSource_of_new {sources : List State} {s : State}
    (new : isListed sources s.name = false) (ts : List Transition) :
    (ts.map fun t => (s, t)).foldl (addSource name) sources =
      if ts.any fun t => t.target == name then sources ++ [s] else sources := by
  induction ts with
  | nil => rfl
  | cons t rest ih =>
    rw [List.map_cons, List.foldl_cons]
    by_cases leads : t.target = name
    · have added : addSource name sources (s, t) = sources ++ [s] := by simp [addSource, leads, new]
      have listed : isListed (sources ++ [s]) s.name = true := by simp [isListed_concat]
      rw [added, foldl_addSource_of_isListed listed]
      simp [leads]
    · have skipped : addSource name sources (s, t) = sources := by simp [addSource, leads]
      rw [skipped, ih]
      simp [leads]

/-- The scan of the edges of states under distinct names lists those with a transition to the name,
in order. -/
theorem foldl_addSource {states : List State} (distinct : (states.map State.name).Nodup) :
    (states.flatMap fun s => s.transitions.map fun t => (s, t)).foldl (addSource name) [] =
      states.filter fun s => s.leadsTo name := by
  suffices general : ∀ sources : List State, (∀ s ∈ states, isListed sources s.name = false) →
      (states.flatMap fun s => s.transitions.map fun t => (s, t)).foldl (addSource name) sources =
        sources ++ states.filter fun s => s.leadsTo name from
    general [] fun _ _ => rfl
  induction states with
  | nil => simp
  | cons s rest ih =>
    intro sources new
    rw [List.map_cons, List.nodup_cons] at distinct
    obtain ⟨apart, distinct⟩ := distinct
    obtain ⟨newHere, newLater⟩ := List.forall_mem_cons.mp new
    have here : (s.transitions.map fun t => (s, t)).foldl (addSource name) sources =
        if s.leadsTo name then sources ++ [s] else sources :=
      foldl_addSource_of_new newHere s.transitions
    rw [List.flatMap_cons, List.foldl_append, here]
    by_cases leads : s.leadsTo name = true
    · have stillNew : ∀ other ∈ rest, isListed (sources ++ [s]) other.name = false := by
        intro other member
        have differs : s.name ≠ other.name := fun same => apart (same ▸ List.mem_map_of_mem member)
        simp [isListed_concat, newLater other member, differs]
      rw [if_pos leads, ih distinct _ stillNew, List.filter_cons, if_pos leads, List.append_assoc,
        List.singleton_append]
    · rw [if_neg leads, ih distinct _ newLater, List.filter_cons, if_neg leads]

/-! ## Closed graphs -/

theorem predecessors_of_not_mem (absent : name ∉ m.states.names) :
    m.predecessors name = .error (.unknownState m.name name) := by
  rw [predecessors, state, (Table.get?_eq_none_iff _ _).mpr absent]
  rfl

/-- Every state stands under its own name, every transition leads to a name that is there, and no
state of a machine that is not abstract is abstract. -/
structure IsClosed (m : Machine) : Prop where
  named : ∀ {name s}, m.states.get? name = some s → s.name = name
  targets : ∀ {s}, s ∈ m.states.values → ∀ t ∈ s.transitions, t.target ∈ m.states.names
  concrete : m.isAbstract = false → ∀ s ∈ m.states.values, s.isAbstract = false

/-- The names that are reached from a name by following transitions, one after the other. -/
inductive Walk (m : Machine) : String → List Transition → String → Prop
  | stay (name : String) : Walk m name [] name
  | step {name last : String} {s : State} {t : Transition} {path : List Transition}
      (found : m.state name = .ok s) (leaves : t ∈ s.transitions)
      (onward : Walk m t.target path last) : Walk m name (t :: path) last

namespace IsClosed

variable (closed : m.IsClosed)
include closed

theorem map_name_values : m.states.values.map State.name = m.states.names := by
  rw [Table.values, Table.names, List.map_map]
  refine List.map_congr_left fun entry member => ?_
  exact closed.named (Table.get?_eq_some_iff.mpr member)

theorem nodup_names : (m.states.values.map State.name).Nodup := by
  rw [closed.map_name_values]
  exact m.states.names_nodup

/-- A state is found under its name. -/
theorem state_name {s : State} (member : s ∈ m.states.values) : m.state s.name = .ok s := by
  obtain ⟨name, held⟩ := Table.mem_values_iff.mp member
  rw [state_eq_ok_iff, closed.named held, held]

theorem mem_names_iff : name ∈ m.states.names ↔ ∃ s ∈ m.states.values, s.name = name := by
  rw [← closed.map_name_values, List.mem_map]

/-- The predecessors of a state are those with a transition to it, in order. -/
theorem predecessors_of_mem (present : name ∈ m.states.names) :
    m.predecessors name = .ok (m.states.values.filter fun s => s.leadsTo name) := by
  obtain ⟨s, member, rfl⟩ := closed.mem_names_iff.mp present
  rw [predecessors, closed.state_name member, edges, foldl_addSource closed.nodup_names]
  rfl

/-- A step along a transition stays on the states. -/
theorem mem_names_of_step {s : State} (found : m.state name = .ok s) {t : Transition}
    (leaves : t ∈ s.transitions) : t.target ∈ m.states.names :=
  closed.targets (Table.mem_values_iff.mpr ⟨name, state_eq_ok_iff.mp found⟩) t leaves

/-- A walk that starts at a state stays on the states. -/
theorem mem_names_of_walk {first last : String} {path : List Transition}
    (walk : m.Walk first path last) (present : first ∈ m.states.names) : last ∈ m.states.names := by
  induction walk with
  | stay name => exact present
  | step found leaves onward ih => exact ih (closed.mem_names_of_step found leaves)

end IsClosed

/-- The queries of the graph of a machine agree. The target of every edge is found, and its source
is among the predecessors of the target. A name has no predecessors to ask for exactly if no state
has it; else they are the states with a transition to it, in order and each once. And a walk from a
state of a machine that is not abstract only meets states, none of them abstract. -/
structure HasClosedGraph (m : Machine) : Prop where
  targets : ∀ s t, (s, t) ∈ m.edges → ∃ target, m.state t.target = .ok target ∧
    target ∈ m.states.values ∧ target.name = t.target
  sources : ∀ s t, (s, t) ∈ m.edges → ∃ sources, m.predecessors t.target = .ok sources ∧ s ∈ sources
  unknown : ∀ name e, m.predecessors name = .error e ↔
    (∀ s ∈ m.states.values, s.name ≠ name) ∧ e = .unknownState m.name name
  predecessors : ∀ name sources, m.predecessors name = .ok sources →
    sources.Sublist m.states.values ∧ (sources.map State.name).Nodup ∧
      ∀ s, s ∈ sources ↔ s ∈ m.states.values ∧ ∃ t ∈ s.transitions, t.target = name
  walks : m.isAbstract = false → ∀ s ∈ m.states.values, ∀ path last, m.Walk s.name path last →
    ∃ reached, m.state last = .ok reached ∧ reached ∈ m.states.values ∧ reached.isAbstract = false

theorem IsClosed.hasClosedGraph (closed : m.IsClosed) : m.HasClosedGraph where
  targets := by
    intro s t edge
    obtain ⟨member, leaves⟩ := mem_edges.mp edge
    obtain ⟨target, inside, named⟩ := closed.mem_names_iff.mp (closed.targets member t leaves)
    exact ⟨target, named ▸ closed.state_name inside, inside, named⟩
  sources := by
    intro s t edge
    obtain ⟨member, leaves⟩ := mem_edges.mp edge
    refine ⟨_, closed.predecessors_of_mem (closed.targets member t leaves), ?_⟩
    exact List.mem_filter.mpr ⟨member, State.leadsTo_iff.mpr ⟨t, leaves, rfl⟩⟩
  unknown := by
    intro name e
    have missing : (∀ s ∈ m.states.values, s.name ≠ name) ↔ name ∉ m.states.names := by
      simp only [closed.mem_names_iff, not_exists, not_and, ne_eq]
    rw [missing]
    by_cases present : name ∈ m.states.names
    · simp [closed.predecessors_of_mem present, present]
    · rw [predecessors_of_not_mem present, Except.error.injEq, and_iff_right present]
      exact eq_comm
  predecessors := by
    intro name sources answered
    have present : name ∈ m.states.names := by
      by_contra absent
      rw [predecessors_of_not_mem absent] at answered
      contradiction
    rw [closed.predecessors_of_mem present] at answered
    obtain rfl := Except.ok.inj answered
    have part := List.filter_sublist (p := fun s : State => s.leadsTo name) (l := m.states.values)
    refine ⟨part, closed.nodup_names.sublist (part.map State.name), fun s => ?_⟩
    rw [List.mem_filter, State.leadsTo_iff]
  walks := by
    intro concrete s member path last walk
    have start : s.name ∈ m.states.names := closed.mem_names_iff.mpr ⟨s, member, rfl⟩
    obtain ⟨reached, inside, named⟩ :=
      closed.mem_names_iff.mp (closed.mem_names_of_walk walk start)
    exact ⟨reached, named ▸ closed.state_name inside, inside,
      closed.concrete concrete reached inside⟩

end Machine

/-! ## The machines of a built system -/

namespace Candidate

variable {o : Options} {m : MachineDecl} {ancestors : List MachineDecl} {machine : Machine}

section Resolved

variable (clean : (mergeStates o (m :: ancestors).reverse).refused = [])
  (resolved : (ofLineage o m ancestors).resolve = .ok machine)
include clean resolved

/-- The names of the states are those that the lineage declares. -/
theorem mem_names_iff_latest {name : String} : name ∈ machine.states.names ↔
    (nearest? MachineDecl.namedStates (m :: ancestors) name).isSome = true := by
  rw [names_states_of_resolve resolved, states_ofLineage clean, ← Table.get?_isSome, get?_tableOf]

/-- A state is what the latest declaration of its name means. -/
theorem exists_latest_of_state {name : String} {st : State}
    (held : machine.states.get? name = some st) :
    ∃ p, nearest? MachineDecl.namedStates (m :: ancestors) name = some p ∧
      p.Means machine.actions machine.guards st := by
  have related := get?_states_of_resolve resolved name
  rw [states_ofLineage clean, get?_tableOf, held] at related
  generalize latest : nearest? MachineDecl.namedStates (m :: ancestors) name = found at related
  cases related with
  | some means => exact ⟨_, rfl, means⟩

end Resolved

end Candidate

namespace SystemDecl

variable {s : SystemDecl} {o : Options}

/-- What the declarations of a machine conform to holds of its states. -/
theorem isClosed_of_build {system : System} (built : s.build o = .ok system) {machine : Machine}
    (member : machine ∈ system.machines.values) : machine.IsClosed := by
  obtain ⟨m, declared, ancestors, lineage, resolved⟩ := exists_resolves built member
  have buildable := buildable_of_build built
  have clean := (buildable.clean m declared ancestors lineage).2
  have conforms := buildable.conforms declared lineage
  refine ⟨?_, ?_, ?_⟩
  · intro name st held
    obtain ⟨p, latest, means⟩ := Candidate.exists_latest_of_state clean resolved held
    obtain ⟨-, -, -, -, same⟩ := MachineDecl.origin_of_nearest? latest
    rw [means.name, same]
  · intro st inside t leaves
    obtain ⟨name, held⟩ := Table.mem_values_iff.mp inside
    obtain ⟨p, latest, means⟩ := Candidate.exists_latest_of_state clean resolved held
    obtain ⟨decl, moves, moving⟩ := exists_left_of_forall₂ means.transitions leaves
    rw [moving.target, Candidate.mem_names_iff_latest clean resolved, nearest?_state_isSome]
    exact conforms.targets name p latest decl moves
  · intro concrete st inside
    obtain ⟨name, held⟩ := Table.mem_values_iff.mp inside
    obtain ⟨p, latest, means⟩ := Candidate.exists_latest_of_state clean resolved held
    have own : m.isAbstract = false := by
      obtain ⟨_, _, rfl⟩ := Candidate.resolve_eq_ok_iff.mp resolved
      exact concrete
    rw [means.isAbstract]
    exact conforms.concrete own name p latest

/-- In a built system the graph of every machine is closed under its own queries. -/
theorem graph_closed (s : SystemDecl) (o : Options) {system : System}
    (built : s.build o = .ok system) {machine : Machine}
    (member : machine ∈ system.machines.values) : machine.HasClosedGraph :=
  (isClosed_of_build built member).hasClosedGraph

/-- A worker that inherits a state with two ways to one target and one to itself, and makes the
abstract target concrete. -/
def workerWithLoops : SystemDecl :=
  let idle := (((StateDecl.ofName "idle").on (.ofEvent "go" "busy")).on
    (.ofEvent "hurry" "busy")).on (.ofEvent "wait" "idle")
  let base := (((MachineDecl.ofName "base").asAbstract.withState idle).withState
    (StateDecl.ofName "busy").asAbstract)
  let worker := ((MachineDecl.ofName "worker").extending "base").withState
    ((StateDecl.ofName "busy").on (.ofEvent "done" "idle"))
  ⟨"system", [base, worker]⟩

/-- The worker is concrete, both of its states lead to the idle one, and only that one to the busy
one. -/
def LoopsWhenIdle (machine : Machine) : Prop :=
  machine.name = "worker" ∧ machine.isAbstract = false ∧
    (machine.predecessors "idle").map (List.map State.name) = .ok ["idle", "busy"] ∧
    (machine.predecessors "busy").map (List.map State.name) = .ok ["idle"]

instance (machine : Machine) : Decidable (LoopsWhenIdle machine) :=
  inferInstanceAs (Decidable (_ ∧ _ ∧ _ ∧ _))

theorem workerWithLoops_builds : ∃ system, workerWithLoops.build .standard = .ok system ∧
    ∃ machine ∈ system.machines.values, LoopsWhenIdle machine :=
  exists_built (by decide +kernel)

theorem graph_closed_worker : ∃ system, workerWithLoops.build .standard = .ok system ∧
    ∃ machine ∈ system.machines.values, LoopsWhenIdle machine ∧ machine.HasClosedGraph := by
  obtain ⟨system, built, machine, member, loops⟩ := workerWithLoops_builds
  exact ⟨system, built, machine, member, loops,
    graph_closed workerWithLoops .standard built member⟩

end SystemDecl

end StateMachines
