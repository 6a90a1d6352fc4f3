import StateMachines.Proofs.Buildable

/-! # What a machine takes over from its parent

A machine and its parent are resolved apart, each from its own lineage. Their tables are related
all the same: the names of the parent come first and in its order, the names that the machine adds
follow, and what a name holds is what the nearest machine of the lineage declares last under it.
-/

namespace StateMachines

/-- A table of a machine, beside the same table of its parent: the parent's names come first, then
those that the machine adds, each once; and every name holds what the nearest machine of the
lineage declares last. -/
structure Table.Extends {α β : Type} (declares : MachineDecl → List (String × α))
    (m : MachineDecl) (ancestors : List MachineDecl) (holds : α → β → Prop)
    (parent child : Table β) : Prop where
  names : child.names = parent.names ++ parent.newNames ((declares m).map Prod.fst)
  distinct : child.names.Nodup
  entries : ∀ name, Option.Rel holds (nearest? declares (m :: ancestors) name) (child.get? name)

/-- A machine extends its parent: all five tables do, and a state is not the parent's only where
the parent's is virtual, or abstract if the options let abstract states be overridden. -/
structure Machine.Extends (o : Options) (m : MachineDecl) (ancestors : List MachineDecl)
    (parent child : Machine) : Prop where
  states : Table.Extends MachineDecl.namedStates m ancestors
    (PlacedState.Means child.actions child.guards) parent.states child.states
  actions : Table.Extends MachineDecl.namedActions m ancestors Eq parent.actions child.actions
  guards : Table.Extends MachineDecl.namedGuards m ancestors Eq parent.guards child.guards
  localContext : Table.Extends MachineDecl.localBindings m ancestors Eq parent.localContext
    child.localContext
  persistentContext : Table.Extends MachineDecl.persistentBindings m ancestors Eq
    parent.persistentContext child.persistentContext
  overrides : ∀ name inherited, parent.states.get? name = some inherited →
    nearest? MachineDecl.namedStates (m :: ancestors) name ≠
      nearest? MachineDecl.namedStates ancestors name →
    inherited.isVirtual = true ∨ o.abstractStatesOverridable = true ∧ inherited.isAbstract = true

section Tables

variable {α : Type} {declares : MachineDecl → List (String × α)}

/-- The table of a lineage extends that of the ancestors. -/
theorem Candidate.tableOf_extends (m : MachineDecl) (ancestors : List MachineDecl) :
    Table.Extends declares m ancestors Eq (tableOf declares ancestors)
      (tableOf declares (m :: ancestors)) := by
  refine ⟨?_, Table.names_nodup _, ?_⟩
  · rw [tableOf_cons, Table.names_setAll]
  · intro name
    rw [get?_tableOf]
    cases nearest? declares (m :: ancestors) name with
    | none => exact .none
    | some value => exact .some rfl

end Tables

/-! ## The tables of a resolved machine -/

namespace Candidate

variable {c : Candidate} {resolved : Machine}

theorem names_states_of_resolve (done : c.resolve = .ok resolved) :
    resolved.states.names = c.states.names := by
  obtain ⟨states, put, rfl⟩ := resolve_eq_ok_iff.mp done
  exact Table.names_of_map? put

/-- A state of the machine is what the declaration under its name means. -/
theorem get?_states_of_resolve (done : c.resolve = .ok resolved) (name : String) :
    Option.Rel (PlacedState.Means resolved.actions resolved.guards) (c.states.get? name)
      (resolved.states.get? name) := by
  obtain ⟨states, put, rfl⟩ := resolve_eq_ok_iff.mp done
  change Option.Rel _ (c.states.get? name) (states.get? name)
  cases held : states.get? name with
  | none =>
    have absent : c.states.get? name = none := by
      rw [Table.get?_eq_none_iff, ← Table.names_of_map? put, ← Table.get?_eq_none_iff, held]
    rw [absent]
    exact .none
  | some st =>
    obtain ⟨p, declared, means⟩ := (Table.get?_of_map? put).mp held
    rw [declared]
    exact .some (resolveState_eq_ok_iff.mp means)

end Candidate

/-! ## Overriding -/

/-- A state that a machine declares again is not sealed in its ancestors. -/
theorem MachineDecl.OverridesAllowed.of_redeclared {m : MachineDecl} {o : Options}
    {ancestors : List MachineDecl} (allowed : m.OverridesAllowed o ancestors) {name : String}
    {inherited : PlacedState} (held : nearest? namedStates ancestors name = some inherited)
    (redeclared : nearest? namedStates (m :: ancestors) name ≠ some inherited) :
    inherited.decl.isVirtual = true ∨
      o.abstractStatesOverridable = true ∧ inherited.decl.isAbstract = true := by
  have declared : name ∈ m.namedStates.map Prod.fst := by
    rw [← Table.lastUnder?_isSome]
    cases own : Table.lastUnder? m.namedStates name with
    | some p => rfl
    | none => exact absurd (by rw [nearest?_cons, own, Option.none_or, held]) redeclared
  obtain ⟨st, first⟩ : ∃ st, m.states.find? (fun st => st.name == name) = some st := by
    rw [← Option.isSome_iff_exists, List.find?_isSome]
    simpa [namedStates, placedStates, PlacedState.entry] using declared
  obtain ⟨same, before, after, split, apart⟩ := List.find?_eq_some_iff_append.mp first
  obtain rfl : st.name = name := by simpa using same
  refine allowed before st after split inherited ?_
  rw [nearest?_cons, held]
  have absent : Table.lastUnder? ({ m with states := before } : MachineDecl).namedStates st.name =
      none := by
    rw [← Option.isNone_iff_eq_none, ← Option.not_isSome, Bool.not_eq_true', ← Bool.not_eq_true,
      Table.lastUnder?_isSome]
    simpa [namedStates, placedStates, PlacedState.entry] using apart
  rw [absent, Option.none_or]

namespace SystemDecl

variable {s : SystemDecl} {o : Options}

/-- The tables of machines that are resolved from a lineage and from the rest of it. -/
theorem extends_of_resolve (buildable : s.Buildable o) {m p : MachineDecl}
    {rest : List MachineDecl} {child parent : Machine} (member : m ∈ s.machines)
    (lineage : s.Lineage o m (p :: rest))
    (resolved : (Candidate.ofLineage o m (p :: rest)).resolve = .ok child)
    (inherited : (Candidate.ofLineage o p rest).resolve = .ok parent) :
    Machine.Extends o m (p :: rest) parent child := by
  obtain ⟨above, whole⟩ := buildable.clean m member (p :: rest) lineage
  have held := Candidate.get?_states_of_resolve resolved
  have heldAbove := Candidate.get?_states_of_resolve inherited
  have names := Candidate.names_states_of_resolve resolved
  have namesAbove := Candidate.names_states_of_resolve inherited
  simp only [Candidate.states_ofLineage whole, Candidate.states_ofLineage above,
    Candidate.get?_tableOf] at held heldAbove names namesAbove
  have overrides := (buildable.conforms member lineage).overrides
  obtain ⟨childStates, _, rfl⟩ := Candidate.resolve_eq_ok_iff.mp resolved
  obtain ⟨parentStates, _, rfl⟩ := Candidate.resolve_eq_ok_iff.mp inherited
  simp only [Candidate.actions_ofLineage, Candidate.guards_ofLineage,
    Candidate.localContext_ofLineage, Candidate.persistentContext_ofLineage] at *
  refine ⟨⟨?_, Table.names_nodup _, held⟩, Candidate.tableOf_extends _ _,
    Candidate.tableOf_extends _ _, Candidate.tableOf_extends _ _, Candidate.tableOf_extends _ _, ?_⟩
  · change childStates.names = parentStates.names ++ _
    rw [names, Candidate.tableOf_cons, Table.names_setAll, ← namesAbove,
      Table.newNames_congr namesAbove]
  · intro name st found redeclared
    have means := heldAbove name
    change parentStates.get? name = some st at found
    change Option.Rel _ _ (parentStates.get? name) at means
    cases declared : nearest? MachineDecl.namedStates (p :: rest) name with
    | none => simp [declared, found] at means
    | some placed =>
      rw [declared, found] at means
      cases means with
      | some means =>
        rw [means.isVirtual, means.isAbstract]
        exact overrides.of_redeclared declared (declared ▸ redeclared)

/-- In a built system the parent of a machine is there, its lineage is the rest of the machine's
own, and the machine extends it. -/
theorem exists_parent_extends (s : SystemDecl) (o : Options) {system : System}
    (built : s.build o = .ok system) {child : Machine} (member : child ∈ system.machines.values)
    {name : String} (below : child.parent? = some name) :
    ∃ parent, system.machine name = .ok parent ∧
      ∃ m ∈ s.machines, ∃ p ∈ s.machines, ∃ rest, m.name = child.name ∧ p.name = name ∧
        s.Ancestry m (p :: rest) ∧ s.Ancestry p rest ∧
        Machine.Extends o m (p :: rest) parent child := by
  have buildable := buildable_of_build built
  obtain ⟨m, declared, resolves⟩ := exists_resolves built member
  have named := resolves.name
  obtain ⟨ancestors, lineage, resolved⟩ := resolves
  have ancestry : child.ancestors = ancestors.map MachineDecl.name := by
    obtain ⟨_, _, rfl⟩ := Candidate.resolve_eq_ok_iff.mp resolved
    rfl
  cases ancestors with
  | nil => simp [Machine.parent?, ancestry] at below
  | cons p rest =>
    obtain rfl : p.name = name := by simpa [Machine.parent?, ancestry] using below
    obtain ⟨found, above⟩ := lineage.parent
    have declaredAbove := mem_of_declared? found
    obtain ⟨parent, held, others, other, inherited⟩ := exists_machine built declaredAbove
    obtain rfl := above.leads.unique other.leads
    exact ⟨parent, held, m, declared, p, declaredAbove, rest, named.symm, rfl, lineage.leads,
      above.leads, extends_of_resolve buildable declared lineage resolved inherited⟩

/-- A worker that makes the abstract state of its base concrete, twice redefines the action that
the base uses, and adds a state of its own. -/
def workerOverBase : SystemDecl :=
  let count (n : Int64) : Action := (Action.assign "count" (.literal (.integer n))).named "count"
  let base := ((((MachineDecl.ofName "base").asAbstract.withState
    (((StateDecl.ofName "idle").onEntry (.named "count")).on (.ofEvent "go" "done"))).withState
      (StateDecl.ofName "done").asAbstract).withAction (count 1)).withLocal "n" (.literal .null)
  let worker := (((((MachineDecl.ofName "worker").extending "base").withState
    (StateDecl.ofName "done")).withState (StateDecl.ofName "extra")).withAction
      (count 2)).withAction (count 3)
  ((SystemDecl.ofName "system").withMachine worker).withMachine base

theorem workerOverBase_builds : ∃ system, workerOverBase.build .standard = .ok system ∧
    ∃ child ∈ system.machines.values, child.parent? = some "base" :=
  exists_built (by decide +kernel)

theorem exists_parent_extends_worker : ∃ system, workerOverBase.build .standard = .ok system ∧
    ∃ child ∈ system.machines.values, child.parent? = some "base" ∧
      ∃ parent, system.machine "base" = .ok parent ∧
        ∃ m ∈ workerOverBase.machines, ∃ p ∈ workerOverBase.machines, ∃ rest,
          m.name = child.name ∧ p.name = "base" ∧ workerOverBase.Ancestry m (p :: rest) ∧
          workerOverBase.Ancestry p rest ∧
          Machine.Extends .standard m (p :: rest) parent child := by
  obtain ⟨system, built, child, member, below⟩ := workerOverBase_builds
  exact ⟨system, built, child, member, below,
    exists_parent_extends workerOverBase .standard built member below⟩

end SystemDecl

end StateMachines
