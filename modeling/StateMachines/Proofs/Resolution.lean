import StateMachines.Proofs.Table
import StateMachines.Resolution

/-! # What resolution puts in place

A resolved state has what its declaration uses, part by part and in order: an inline use is itself,
and a use by name is what the machine's own table holds under that name. Resolution answers exactly
if every name that is used is there.
-/

namespace StateMachines

section Lists

variable {α β ε : Type} {f : α → Except ε β}

theorem exists_right_of_forall₂ {r : α → β → Prop} {xs : List α} {ys : List β}
    (each : List.Forall₂ r xs ys) {x : α} (member : x ∈ xs) : ∃ y ∈ ys, r x y := by
  induction each with
  | nil => simp at member
  | @cons _ y _ _ related _ ih =>
    rcases List.mem_cons.mp member with rfl | later
    · exact ⟨y, List.mem_cons_self .., related⟩
    · obtain ⟨z, held, related⟩ := ih later
      exact ⟨z, List.mem_cons_of_mem _ held, related⟩

theorem exists_left_of_forall₂ {r : α → β → Prop} {xs : List α} {ys : List β}
    (each : List.Forall₂ r xs ys) {y : β} (member : y ∈ ys) : ∃ x ∈ xs, r x y :=
  exists_right_of_forall₂ each.flip member

theorem mapM_eq_ok_iff {xs : List α} {ys : List β} :
    xs.mapM f = .ok ys ↔ List.Forall₂ (fun x y => f x = .ok y) xs ys := by
  induction xs generalizing ys with
  | nil =>
    rw [List.mapM_nil, List.forall₂_nil_left_iff]
    constructor
    · intro done
      exact (Except.ok.inj done).symm
    · rintro rfl
      rfl
  | cons x rest ih =>
    rw [List.mapM_cons, List.forall₂_cons_left_iff]
    cases first : f x with
    | error e => simp [bind, Except.bind]
    | ok y =>
      cases later : rest.mapM f with
      | error e => simp [bind, Except.bind, ← ih, later]
      | ok tail =>
        simp only [bind, Except.bind, pure, Except.pure, Except.ok.injEq, ← ih, later]
        constructor
        · rintro rfl
          exact ⟨y, tail, rfl, rfl, rfl⟩
        · rintro ⟨_, _, rfl, rfl, rfl⟩
          rfl

theorem exists_mapM_iff {xs : List α} :
    (∃ ys, xs.mapM f = .ok ys) ↔ ∀ x ∈ xs, ∃ y, f x = .ok y := by
  simp only [mapM_eq_ok_iff]
  constructor
  · rintro ⟨ys, each⟩ x member
    obtain ⟨y, _, done⟩ := exists_right_of_forall₂ each member
    exact ⟨y, done⟩
  · intro each
    induction xs with
    | nil => exact ⟨[], .nil⟩
    | cons x rest ih =>
      obtain ⟨y, done⟩ := each x (List.mem_cons_self ..)
      obtain ⟨ys, later⟩ := ih fun other member => each other (List.mem_cons_of_mem _ member)
      exact ⟨y :: ys, .cons done later⟩

end Lists

/-! ## What uses mean -/

/-- What a use of an action means under a table of actions. -/
def ActionUse.Means (actions : Table Action) : ActionUse → Action → Prop
  | inline action, meant => action = meant
  | named name, meant => actions.get? name = some meant

/-- What a use of a guard means under a table of guards. -/
def GuardUse.Means (guards : Table Guard) : GuardUse → Guard → Prop
  | inline guard, meant => guard = meant
  | named name, meant => guards.get? name = some meant

/-- The transition that a declaration means: same event and target, a guard where there is one, and
the actions in order. -/
structure TransitionDecl.Means (actions : Table Action) (guards : Table Guard) (t : TransitionDecl)
    (meant : Transition) : Prop where
  event : meant.event = t.event
  target : meant.target = t.target
  guard : Option.Rel (GuardUse.Means guards) t.guard meant.guard
  actions : List.Forall₂ (ActionUse.Means actions) t.actions meant.actions

/-- The state that a declaration means: same name, flags and origin, and its actions and
transitions in order. -/
structure PlacedState.Means (actions : Table Action) (guards : Table Guard) (p : PlacedState)
    (meant : State) : Prop where
  name : meant.name = p.decl.name
  isVirtual : meant.isVirtual = p.decl.isVirtual
  isAbstract : meant.isAbstract = p.decl.isAbstract
  declaredIn : meant.declaredIn = p.declaredIn
  entry : List.Forall₂ (ActionUse.Means actions) p.decl.entry meant.entry
  exit : List.Forall₂ (ActionUse.Means actions) p.decl.exit meant.exit
  transitions : List.Forall₂ (TransitionDecl.Means actions guards) p.decl.transitions
    meant.transitions

namespace StateDecl

/-- The names by which a state uses actions. -/
def actionNames (st : StateDecl) : List String := st.actionUses.filterMap ActionUse.reference?

/-- The names by which a state uses guards. -/
def guardNames (st : StateDecl) : List String :=
  st.transitions.filterMap fun t => t.guard.bind GuardUse.reference?

end StateDecl

namespace Candidate

variable {c : Candidate}

theorem resolveAction_eq_ok_iff {use : ActionUse} {meant : Action} :
    c.resolveAction use = .ok meant ↔ use.Means c.actions meant := by
  cases use with
  | inline action => simp [resolveAction, ActionUse.Means]
  | named name =>
    simp only [resolveAction, ActionUse.Means]
    cases c.actions.get? name <;> simp

theorem resolveGuard_eq_ok_iff {use : GuardUse} {meant : Guard} :
    c.resolveGuard use = .ok meant ↔ use.Means c.guards meant := by
  cases use with
  | inline guard => simp [resolveGuard, GuardUse.Means]
  | named name =>
    simp only [resolveGuard, GuardUse.Means]
    cases c.guards.get? name <;> simp

theorem resolveGuard?_eq_ok_iff {use : Option GuardUse} {meant : Option Guard} :
    c.resolveGuard? use = .ok meant ↔ Option.Rel (GuardUse.Means c.guards) use meant := by
  cases use with
  | none => cases meant <;> simp [resolveGuard?]
  | some use =>
    rw [resolveGuard?]
    cases resolved : c.resolveGuard use with
    | error e =>
      cases meant with
      | none => simp [Except.map]
      | some guard => simp [Except.map, ← resolveGuard_eq_ok_iff, resolved]
    | ok guard =>
      cases meant with
      | none => simp [Except.map]
      | some meant => simp [Except.map, ← resolveGuard_eq_ok_iff, resolved]

theorem mapM_resolveAction_iff {uses : List ActionUse} {meant : List Action} :
    uses.mapM c.resolveAction = .ok meant ↔
      List.Forall₂ (ActionUse.Means c.actions) uses meant := by
  simp only [mapM_eq_ok_iff, resolveAction_eq_ok_iff]

theorem resolveTransition_eq_ok_iff {t : TransitionDecl} {meant : Transition} :
    c.resolveTransition t = .ok meant ↔ t.Means c.actions c.guards meant := by
  simp only [resolveTransition, bind_eq_ok_iff, resolveGuard?_eq_ok_iff, mapM_resolveAction_iff,
    Except.ok.injEq]
  constructor
  · rintro ⟨guard, guarded, actions, acting, rfl⟩
    exact ⟨rfl, rfl, guarded, acting⟩
  · rintro ⟨event, target, guarded, acting⟩
    exact ⟨meant.guard, guarded, meant.actions, acting, by rw [← event, ← target]⟩

theorem resolveState_eq_ok_iff {p : PlacedState} {meant : State} :
    c.resolveState p = .ok meant ↔ p.Means c.actions c.guards meant := by
  simp only [resolveState, bind_eq_ok_iff, mapM_resolveAction_iff, Except.ok.injEq]
  simp only [mapM_eq_ok_iff, resolveTransition_eq_ok_iff]
  constructor
  · rintro ⟨entry, entering, exit, leaving, transitions, moving, rfl⟩
    exact ⟨rfl, rfl, rfl, rfl, entering, leaving, moving⟩
  · intro means
    refine ⟨meant.entry, means.entry, meant.exit, means.exit, meant.transitions,
      means.transitions, ?_⟩
    rw [← means.name, ← means.isVirtual, ← means.isAbstract, ← means.declaredIn]

/-- A candidate resolves to a machine that has its tables, with its states put in place. -/
theorem resolve_eq_ok_iff {m : Machine} :
    c.resolve = .ok m ↔ ∃ states, c.states.map? c.resolveState = .ok states ∧
      m = ⟨c.name, c.isAbstract, c.ancestors, states, c.actions, c.guards, c.localContext,
        c.persistentContext⟩ := by
  simp only [resolve, bind_eq_ok_iff, Except.ok.injEq]
  constructor
  · rintro ⟨states, done, rfl⟩
    exact ⟨states, done, rfl⟩
  · rintro ⟨states, done, rfl⟩
    exact ⟨states, done, rfl⟩

/-! ## When resolution answers -/

theorem exists_resolveAction_iff {use : ActionUse} :
    (∃ meant, c.resolveAction use = .ok meant) ↔
      ∀ name, use.reference? = some name → c.actions.contains name = true := by
  cases use with
  | inline action => simp [resolveAction, ActionUse.reference?]
  | named name =>
    simp only [resolveAction, ActionUse.reference?, Option.some.injEq, forall_eq',
      Table.contains_eq_isSome]
    cases c.actions.get? name <;> simp

theorem exists_resolveGuard?_iff {use : Option GuardUse} :
    (∃ meant, c.resolveGuard? use = .ok meant) ↔
      ∀ name, use.bind GuardUse.reference? = some name → c.guards.contains name = true := by
  rcases use with _ | _ | _
  · simp [resolveGuard?]
  · next name =>
    simp only [resolveGuard?, resolveGuard, Option.bind_some, GuardUse.reference?,
      Option.some.injEq, forall_eq', Table.contains_eq_isSome]
    cases c.guards.get? name <;> simp [Except.map]
  · simp [resolveGuard?, resolveGuard, Except.map, GuardUse.reference?]

theorem exists_mapM_resolveAction_iff {uses : List ActionUse} :
    (∃ meant, uses.mapM c.resolveAction = .ok meant) ↔
      ∀ name ∈ uses.filterMap ActionUse.reference?, c.actions.contains name = true := by
  simp only [exists_mapM_iff, exists_resolveAction_iff, List.mem_filterMap]
  constructor
  · rintro each name ⟨use, member, same⟩
    exact each use member name same
  · intro each use member name same
    exact each name ⟨use, member, same⟩

theorem exists_resolveTransition_iff {t : TransitionDecl} :
    (∃ meant, c.resolveTransition t = .ok meant) ↔
      (∀ name, t.guard.bind GuardUse.reference? = some name → c.guards.contains name = true) ∧
        ∀ name ∈ t.actions.filterMap ActionUse.reference?, c.actions.contains name = true := by
  rw [← exists_resolveGuard?_iff, ← exists_mapM_resolveAction_iff]
  simp only [resolveTransition, bind_eq_ok_iff, Except.ok.injEq]
  constructor
  · rintro ⟨_, guard, guarded, actions, acting, _⟩
    exact ⟨⟨guard, guarded⟩, actions, acting⟩
  · rintro ⟨⟨guard, guarded⟩, actions, acting⟩
    exact ⟨_, guard, guarded, actions, acting, rfl⟩

/-- A state resolves exactly if every name that it uses is there. -/
theorem exists_resolveState_iff {p : PlacedState} :
    (∃ meant, c.resolveState p = .ok meant) ↔
      (∀ name ∈ p.decl.guardNames, c.guards.contains name = true) ∧
        ∀ name ∈ p.decl.actionNames, c.actions.contains name = true := by
  have parts : (∃ meant, c.resolveState p = .ok meant) ↔
      (∃ entry, p.decl.entry.mapM c.resolveAction = .ok entry) ∧
        (∃ exit, p.decl.exit.mapM c.resolveAction = .ok exit) ∧
          ∃ transitions, p.decl.transitions.mapM c.resolveTransition = .ok transitions := by
    simp only [resolveState, bind_eq_ok_iff, Except.ok.injEq]
    constructor
    · rintro ⟨_, entry, entering, exit, leaving, transitions, moving, _⟩
      exact ⟨⟨entry, entering⟩, ⟨exit, leaving⟩, transitions, moving⟩
    · rintro ⟨⟨entry, entering⟩, ⟨exit, leaving⟩, transitions, moving⟩
      exact ⟨_, entry, entering, exit, leaving, transitions, moving, rfl⟩
  rw [parts, exists_mapM_resolveAction_iff, exists_mapM_resolveAction_iff, exists_mapM_iff]
  simp only [exists_resolveTransition_iff, StateDecl.guardNames, StateDecl.actionNames,
    StateDecl.actionUses, List.filterMap_append, List.mem_append, List.mem_filterMap,
    List.mem_flatMap]
  constructor
  · rintro ⟨entering, leaving, moving⟩
    constructor
    · rintro name ⟨t, member, same⟩
      exact (moving t member).1 name same
    · rintro name ((found | ⟨use, ⟨t, member, used⟩, same⟩) | found)
      · exact entering name found
      · exact (moving t member).2 name ⟨use, used, same⟩
      · exact leaving name found
  · rintro ⟨guarded, acting⟩
    refine ⟨fun name found => acting name (.inl (.inl found)),
      fun name found => acting name (.inr found), fun t member => ⟨?_, ?_⟩⟩
    · exact fun name same => guarded name ⟨t, member, same⟩
    · rintro name ⟨use, used, same⟩
      exact acting name (.inl (.inr ⟨use, ⟨t, member, used⟩, same⟩))

/-- A candidate resolves exactly if none of its states uses a name that is not there. -/
theorem exists_resolve_iff :
    (∃ m, c.resolve = .ok m) ↔ c.unknownGuards = [] ∧ c.unknownActions = [] := by
  have states : (∃ m, c.resolve = .ok m) ↔ ∃ states, c.states.map? c.resolveState = .ok states := by
    simp only [resolve_eq_ok_iff]
    constructor
    · rintro ⟨_, states, done, -⟩
      exact ⟨states, done⟩
    · rintro ⟨states, done⟩
      exact ⟨_, states, done, rfl⟩
  rw [states, Table.exists_map?_iff]
  simp only [exists_resolveState_iff, unknownGuards, unknownActions, transitions, stateDecls,
    List.map_eq_nil_iff, List.filter_eq_nil_iff, List.mem_filterMap, List.mem_flatMap,
    List.mem_map, StateDecl.guardNames, StateDecl.actionNames, Bool.not_eq_true',
    Bool.not_eq_false]
  constructor
  · intro each
    constructor
    · rintro name ⟨t, ⟨st, ⟨p, member, rfl⟩, moves⟩, same⟩
      exact (each p member).1 name ⟨t, moves, same⟩
    · rintro name ⟨use, ⟨st, ⟨p, member, rfl⟩, used⟩, same⟩
      exact (each p member).2 name ⟨use, used, same⟩
  · rintro ⟨guarded, acting⟩ p member
    constructor
    · rintro name ⟨t, moves, same⟩
      exact guarded name ⟨t, ⟨_, ⟨p, member, rfl⟩, moves⟩, same⟩
    · rintro name ⟨use, used, same⟩
      exact acting name ⟨use, ⟨_, ⟨p, member, rfl⟩, used⟩, same⟩

end Candidate

end StateMachines
