import StateMachines.Proofs.Extension

/-! # Late binding

A state may use actions and guards by name. What a name means is settled in the machine that has the
state, not where the state was declared: it is what the machine's own table holds, which is what the
nearest machine of its lineage that names it declares last. What is used in place is taken as it is.
-/

namespace StateMachines

/-- A name is bound in a machine with a lineage: looking it up there finds what carries that name
and was declared last under it by the nearest machine that declares it. -/
structure BindsName {α : Type} (lookUp : String → Except LookupError α)
    (carries : α → Option String) (declares : MachineDecl → List (String × α))
    (lineage : List MachineDecl) (name : String) (bound : α) : Prop where
  found : lookUp name = .ok bound
  named : carries bound = some name
  latest : nearest? declares lineage name = some bound

variable {machine : Machine} {lineage : List MachineDecl} {name : String}

/-- What a machine does where one of its states uses an action. -/
inductive ActionUse.Binds (machine : Machine) (lineage : List MachineDecl) :
    ActionUse → Action → Prop
  | inline (action : Action) : Binds machine lineage (.inline action) action
  | named {name : String} {bound : Action}
      (binds : BindsName machine.action Action.name MachineDecl.namedActions lineage name bound) :
      Binds machine lineage (.named name) bound

/-- What a machine asks where one of its states uses a guard. -/
inductive GuardUse.Binds (machine : Machine) (lineage : List MachineDecl) : GuardUse → Guard → Prop
  | inline (guard : Guard) : Binds machine lineage (.inline guard) guard
  | named {name : String} {bound : Guard}
      (binds : BindsName machine.guard Guard.name MachineDecl.namedGuards lineage name bound) :
      Binds machine lineage (.named name) bound

/-- A transition of a machine, beside its declaration: event and target are the same, there is a
guard where one is used, and the actions are those used, in order. -/
structure TransitionDecl.Binds (machine : Machine) (lineage : List MachineDecl) (t : TransitionDecl)
    (bound : Transition) : Prop where
  event : bound.event = t.event
  target : bound.target = t.target
  guard : Option.Rel (GuardUse.Binds machine lineage) t.guard bound.guard
  actions : List.Forall₂ (ActionUse.Binds machine lineage) t.actions bound.actions

/-- A state of a machine, beside the declaration in force and its origin: the actions on entry and
exit and the transitions are those declared, in order. -/
structure PlacedState.Binds (machine : Machine) (lineage : List MachineDecl) (p : PlacedState)
    (bound : State) : Prop where
  name : bound.name = p.decl.name
  declaredIn : bound.declaredIn = p.declaredIn
  entry : List.Forall₂ (ActionUse.Binds machine lineage) p.decl.entry bound.entry
  exit : List.Forall₂ (ActionUse.Binds machine lineage) p.decl.exit bound.exit
  transitions : List.Forall₂ (TransitionDecl.Binds machine lineage) p.decl.transitions
    bound.transitions

/-! ## What tables bind -/

/-- What is listed under a name carries that name. -/
theorem carries_of_mem_filterMap {α : Type} {carries : α → Option String} {listed : List α}
    {entry : String × α}
    (member : entry ∈ listed.filterMap fun a => (carries a).map fun name => (name, a)) :
    carries entry.2 = some entry.1 := by
  obtain ⟨a, -, same⟩ := List.mem_filterMap.mp member
  obtain ⟨name, carried, rfl⟩ := Option.map_eq_some_iff.mp same
  exact carried

/-- What the table of a lineage holds under a name is bound to it. -/
theorem BindsName.of_get? {α : Type} {lookUp : String → Except LookupError α}
    {carries : α → Option String} {declares : MachineDecl → List (String × α)} {bound : α}
    (carried : ∀ m, ∀ entry ∈ declares m, carries entry.2 = some entry.1)
    (held : (Candidate.tableOf declares lineage).get? name = some bound)
    (found : lookUp name = .ok bound) : BindsName lookUp carries declares lineage name bound := by
  rw [Candidate.get?_tableOf] at held
  obtain ⟨m, -, declared⟩ := mem_of_nearest? _ held
  exact ⟨found, carried m _ declared, held⟩

/-- A machine has the tables of a lineage. -/
structure Machine.HasTables (machine : Machine) (lineage : List MachineDecl) : Prop where
  actions : machine.actions = Candidate.tableOf MachineDecl.namedActions lineage
  guards : machine.guards = Candidate.tableOf MachineDecl.namedGuards lineage

theorem Machine.hasTables_of_resolve {o : Options} {m : MachineDecl} {ancestors : List MachineDecl}
    (resolved : (Candidate.ofLineage o m ancestors).resolve = .ok machine) :
    machine.HasTables (m :: ancestors) := by
  obtain ⟨_, _, rfl⟩ := Candidate.resolve_eq_ok_iff.mp resolved
  exact ⟨Candidate.actions_ofLineage (o := o), Candidate.guards_ofLineage (o := o)⟩

section Means

variable (tables : machine.HasTables lineage)
include tables

theorem ActionUse.Means.binds {use : ActionUse} {a : Action} (means : use.Means machine.actions a) :
    use.Binds machine lineage a := by
  cases use with
  | inline action =>
    obtain rfl : action = a := means
    exact .inline action
  | named name =>
    have held : machine.actions.get? name = some a := means
    exact .named (.of_get? (fun _ _ => carries_of_mem_filterMap) (tables.actions ▸ held)
      (by rw [Machine.action, held]))

theorem GuardUse.Means.binds {use : GuardUse} {g : Guard} (means : use.Means machine.guards g) :
    use.Binds machine lineage g := by
  cases use with
  | inline guard =>
    obtain rfl : guard = g := means
    exact .inline guard
  | named name =>
    have held : machine.guards.get? name = some g := means
    exact .named (.of_get? (fun _ _ => carries_of_mem_filterMap) (tables.guards ▸ held)
      (by rw [Machine.guard, held]))

theorem TransitionDecl.Means.binds {t : TransitionDecl} {bound : Transition}
    (means : t.Means machine.actions machine.guards bound) : t.Binds machine lineage bound where
  event := means.event
  target := means.target
  guard := by
    generalize t.guard = used, bound.guard = guarding, means.guard = guarded
    cases guarded with
    | none => exact .none
    | some means => exact .some (means.binds tables)
  actions := means.actions.imp fun _ _ acting => acting.binds tables

theorem PlacedState.Means.binds {p : PlacedState} {bound : State}
    (means : p.Means machine.actions machine.guards bound) : p.Binds machine lineage bound where
  name := means.name
  declaredIn := means.declaredIn
  entry := means.entry.imp fun _ _ acting => acting.binds tables
  exit := means.exit.imp fun _ _ acting => acting.binds tables
  transitions := means.transitions.imp fun _ _ moving => moving.binds tables

end Means

namespace SystemDecl

variable {s : SystemDecl} {o : Options}

/-- In a built system every state of a machine is the last declaration of its name in the nearest
machine of the lineage that has one, with its uses in place and in order. A use by name is the
action or guard of that name in this machine, whatever the name meant where the state was declared,
and a use in place is itself. -/
theorem states_bind_late (s : SystemDecl) (o : Options) {system : System}
    (built : s.build o = .ok system) {machine : Machine} (member : machine ∈ system.machines.values)
    {bound : State} (inside : bound ∈ machine.states.values) :
    ∃ m ∈ s.machines, ∃ ancestors, m.name = machine.name ∧ s.Ancestry m ancestors ∧
      ∃ p, nearest? MachineDecl.namedStates (m :: ancestors) bound.name = some p ∧
        p.Binds machine (m :: ancestors) bound := by
  obtain ⟨m, declared, resolves⟩ := exists_resolves built member
  have named := resolves.name
  obtain ⟨ancestors, lineage, resolved⟩ := resolves
  have clean := ((buildable_of_build built).clean m declared ancestors lineage).2
  have tables := Machine.hasTables_of_resolve resolved
  obtain ⟨name, held⟩ := Table.mem_values_iff.mp inside
  have means := Candidate.get?_states_of_resolve resolved name
  rw [Candidate.states_ofLineage clean, Candidate.get?_tableOf, held] at means
  cases latest : nearest? MachineDecl.namedStates (m :: ancestors) name with
  | none => rw [latest] at means; cases means
  | some p =>
    rw [latest] at means
    cases means with
    | some means =>
      obtain ⟨-, -, -, -, same⟩ := MachineDecl.origin_of_nearest? latest
      refine ⟨m, declared, ancestors, named.symm, lineage.leads, p, ?_, means.binds tables⟩
      rw [means.name, same, latest]

/-- An action under the name `count`. -/
def countAs (n : Int64) : Action :=
  (Action.assign "count" (.literal (.integer n))).named "count"

/-- A guard under the name `ready`. -/
def readyIf (b : Bool) : Guard := (Guard.ofExpr (.literal (.bool b))).named "ready"

/-- A worker that inherits a state and means other things by the names that the state uses. One of
its actions is used in place, and carries a name that is used, too. -/
def renamingWorker : SystemDecl :=
  let idle := (((StateDecl.ofName "idle").onEntry (.named "count")).onEntry
    (.inline (countAs 9))).on ((TransitionDecl.ofEvent "go" "idle").guardedBy (.named "ready"))
  let base := (((MachineDecl.ofName "base").withState idle).withAction
    (countAs 1)).withGuard (readyIf false)
  let worker := (((MachineDecl.ofName "worker").extending "base").withAction
    (countAs 2)).withGuard (readyIf true)
  ⟨"system", [base, worker]⟩

/-- What the worker does in the inherited state. -/
def WorksIdle (machine : Machine) (idle : State) : Prop :=
  machine.name = "worker" ∧ idle.declaredIn = "base" ∧ idle.entry = [countAs 2, countAs 9] ∧
    idle.transitions.map Transition.guard = [some (readyIf true)]

instance (machine : Machine) (idle : State) : Decidable (WorksIdle machine idle) :=
  inferInstanceAs (Decidable (_ ∧ _ ∧ _ ∧ _))

theorem renamingWorker_builds : ∃ system, renamingWorker.build .standard = .ok system ∧
    ∃ machine ∈ system.machines.values, ∃ idle ∈ machine.states.values, WorksIdle machine idle :=
  exists_built (by decide +kernel)

theorem states_bind_late_worker : ∃ system, renamingWorker.build .standard = .ok system ∧
    ∃ machine ∈ system.machines.values, ∃ idle ∈ machine.states.values, WorksIdle machine idle ∧
      ∃ m ∈ renamingWorker.machines, ∃ ancestors, m.name = machine.name ∧
        renamingWorker.Ancestry m ancestors ∧
          ∃ p, nearest? MachineDecl.namedStates (m :: ancestors) idle.name = some p ∧
            p.Binds machine (m :: ancestors) idle := by
  obtain ⟨system, built, machine, member, idle, inside, works⟩ := renamingWorker_builds
  exact ⟨system, built, machine, member, idle, inside, works,
    states_bind_late renamingWorker .standard built member inside⟩

end SystemDecl

end StateMachines
