import StateMachines.Proofs.Execution
import StateMachines.Proofs.Graph
import StateMachines.Proofs.Initialization
import StateMachines.Session

/-! # Machines that run

Actions change variables, and never which contexts there are or how they are kept; so a running
machine keeps contexts of its own scopes. An event takes the first transition that fires, if any,
and what is executed then is one list of actions: those of the state that is left, of the transition
and of the state that is entered. As the graph of a machine of a built system is closed, a running
machine is always at one of its states. The states that it comes to form a walk.
-/

namespace StateMachines

/-! ## Contexts stay where they are -/

namespace Context

/-- A context without its variables: how it is kept, and its scope. -/
def frame (c : Context) : Context := c.withContents (.empty c.scope)

theorem scope_frame (c : Context) : c.frame.scope = c.scope := by
  rw [frame, scope, contents_withContents]
  rfl

theorem frame_withContents {c : Context} {m : Memory} (same : m.scope = c.scope) :
    (c.withContents m).frame = c.frame := by
  rw [frame, frame, scope, contents_withContents, same]
  cases c <;> rfl

end Context

namespace Extent

variable {x y : Extent}

/-- The contexts of an extent, whatever variables they hold. -/
def frames (x : Extent) : List Context := x.scopes.map Context.frame

theorem frames_of_scopes (same : y.scopes = x.scopes) : y.frames = x.frames := by
  rw [frames, same, frames]

theorem DiffersIn.frames {inner outer : List Context} {c : Context} {ch : Change}
    (differs : x.DiffersIn y inner c outer ch) : y.frames = x.frames := by
  obtain ⟨before, m, after, same, -⟩ := differs
  simp only [Extent.frames, before, after, List.map_append, List.map_cons,
    Context.frame_withContents same]

theorem map_scope_of_frames (same : y.frames = x.frames) :
    (y.scopes.map Context.contents).map Memory.scope =
      (x.scopes.map Context.contents).map Memory.scope := by
  have scopes (z : Extent) :
      (z.scopes.map Context.contents).map Memory.scope = z.frames.map Context.scope := by
    rw [frames, List.map_map, List.map_map]
    exact List.map_congr_left fun c _ => c.scope_frame.symm
  rw [scopes, scopes, same]

end Extent

open Extent

/-- What an outcome reports is a change of variables at most. -/
theorem Outcome.Reports.frames {outcome : Outcome} {x y : Extent}
    (reports : outcome.Reports x y) : y.frames = x.frames := by
  cases outcome with
  | assigned name value =>
    obtain ⟨-, -, inner, c, outer, -, differs⟩ := reports
    exact differs.frames
  | created name value =>
    obtain ⟨-, c, outer, differs⟩ := reports
    exact differs.frames
  | deleted name =>
    obtain ⟨inner, c, outer, -, differs⟩ := reports
    exact differs.frames
  | raised event =>
    obtain rfl := reports
    rfl

theorem Action.frames_execute (a : Action) (x : Extent) : (a.execute x).2.frames = x.frames := by
  have kept := a.kept_execute x
  rcases ran : a.execute x with ⟨_ | outcome, y⟩ <;> rw [ran] at kept
  · exact frames_of_scopes kept
  · exact kept.2.frames

/-- Actions that are executed one after the other leave the contexts, however far they come. -/
theorem frames_executeAll (actions : List Action) (x : Extent) :
    (executeAll actions x).2.frames = x.frames := by
  induction actions generalizing x with
  | nil => rfl
  | cons a rest ih =>
    have first := a.frames_execute x
    rw [executeAll]
    split
    · next failed => rw [← first, failed]
    · next next done => rw [← first, done, ← ih next]

/-! ## One event -/

namespace Running

variable {r next : Running} {event : String} {x : Extent} {t : Transition}

/-- A transition is the first of some that fires; those before it do not. -/
def FiresFirst (event : String) (x : Extent) (ts : List Transition) (t : Transition) : Prop :=
  ∃ front back, ts = front ++ t :: back ∧ (∀ u ∈ front, u.canFire event x = .ok false) ∧
    t.canFire event x = .ok true

theorem choose_eq_some_iff {ts : List Transition} :
    (choose event x ts).2 = some t ↔ FiresFirst event x ts t := by
  induction ts with
  | nil => simp [choose, FiresFirst]
  | cons u rest ih =>
    rw [choose]
    constructor
    · intro chosen
      split at chosen
      · cases chosen
      · next fires =>
        obtain rfl := Option.some.inj chosen
        exact ⟨[], rest, rfl, by simp, fires⟩
      · next waits =>
        obtain ⟨front, back, rfl, before, fires⟩ := ih.mp chosen
        exact ⟨u :: front, back, rfl, List.forall_mem_cons.mpr ⟨waits, before⟩, fires⟩
    · rintro ⟨front, back, split, before, fires⟩
      cases front with
      | nil =>
        obtain ⟨rfl, rfl⟩ := List.cons.inj split
        rw [fires]
      | cons _ front =>
        obtain ⟨rfl, rfl⟩ := List.cons.inj split
        obtain ⟨waits, before⟩ := List.forall_mem_cons.mp before
        rw [waits]
        exact ih.mpr ⟨front, back, rfl, before, fires⟩

/-- Taking a transition executes one list of actions. The target is entered unless the actions
before its own fail. -/
theorem take_eq {target : State} (found : r.machine.states.get? t.target = some target) :
    r.take t x =
      (if (executeAll (r.state.exit ++ t.actions) x).1.failure.isSome then r.state else target,
        executeAll (r.state.exit ++ t.actions ++ target.entry) x) := by
  rw [take, executeAll_append _ target.entry, found]
  rcases executeAll (r.state.exit ++ t.actions) x with ⟨⟨outcomes, failure⟩, reached⟩
  cases failure <;> rfl

/-- An event moves a machine by the first transition that fires, or not at all. -/
theorem move_cases (r : Running) (event : String) (x : Extent) :
    (∀ t, ¬ FiresFirst event x (r.state.transitionsOn event) t) ∧
        (r.move event x).2 = (r.state, .empty, x) ∨
      ∃ t, FiresFirst event x (r.state.transitionsOn event) t ∧
        (r.move event x).2 = r.take t x := by
  rw [move]
  rcases tried : choose event x (r.state.transitionsOn event) with ⟨checks, _ | t⟩
  · refine .inl ⟨fun t first => ?_, rfl⟩
    have chosen := choose_eq_some_iff.mpr first
    rw [tried] at chosen
    cases chosen
  · exact .inr ⟨t, choose_eq_some_iff.mp (by rw [tried]), rfl⟩

/-- Two contexts become those of a running machine, whichever scopes they are of. -/
theorem withContents_of_scopes {contents : List Memory} {first second : Scope}
    (scopes : contents.map Memory.scope = [first, second]) : ∃ locals persistent,
      locals.scope = first ∧ persistent.scope = second ∧
        r.withContents contents = { r with locals := locals, persistent := persistent } := by
  obtain ⟨locals, _, rfl, ofLocals, scopes⟩ := List.map_eq_cons_iff.mp scopes
  obtain ⟨persistent, _, rfl, ofPersistent, scopes⟩ := List.map_eq_cons_iff.mp scopes
  obtain rfl := List.map_eq_nil_iff.mp scopes
  exact ⟨locals, persistent, ofLocals, ofPersistent, rfl⟩

/-- Contexts that were those of an event's data and of a running machine still are. -/
theorem exists_settle {data : Memory} (kept : x.frames = (ofMemories (data :: r.memories)).frames)
    (state : State) : ∃ left locals persistent, locals.scope = r.locals.scope ∧
      persistent.scope = r.persistent.scope ∧ r.settle state data x =
        ({ r with state := state, locals := locals, persistent := persistent }, left) := by
  have scopes := map_scope_of_frames kept
  obtain ⟨left, contents, split, -, scopes⟩ := List.map_eq_cons_iff.mp scopes
  obtain ⟨locals, persistent, ofLocals, ofPersistent, settled⟩ :=
    withContents_of_scopes (r := { r with state := state }) scopes
  exact ⟨left, locals, persistent, ofLocals, ofPersistent, by rw [settle, split, ← settled]⟩

/-! ## Runs -/

/-- A running machine is at one of the states of a closed graph, and its contexts are of the scopes
that it was started with. -/
structure IsSound (r : Running) : Prop where
  closed : r.machine.IsClosed
  state : r.state ∈ r.machine.states.values
  locals : r.locals.scope = .machineLocal
  persistent : r.persistent.scope = .persistent

/-- Handle events one after the other; one with unusable data is passed over. -/
def reactAll (r : Running) : List Event → Running
  | [] => r
  | event :: rest =>
    match r.react event with
    | .ok (next, _) => next.reactAll rest
    | .error _ => r.reactAll rest

namespace IsSound

/-- A sound machine stays at its state or moves to the target of a transition on the event, and the
contexts stay. -/
theorem move (sound : r.IsSound) (event : String) (x : Extent) :
    ((r.move event x).2.1 = r.state ∨ ∃ t ∈ r.state.transitionsOn event,
      r.machine.state t.target = .ok (r.move event x).2.1) ∧
    (r.move event x).2.2.2.frames = x.frames := by
  rcases r.move_cases event x with ⟨-, moved⟩ | ⟨t, ⟨front, back, split, -, -⟩, moved⟩
  · rw [moved]
    exact ⟨.inl rfl, rfl⟩
  · have member : t ∈ r.state.transitionsOn event := by simp [split]
    have leaves : t ∈ r.state.transitions := (List.mem_filter.mp member).1
    obtain ⟨target, found⟩ := Option.isSome_iff_exists.mp
      ((Table.get?_isSome ..).mpr (sound.closed.targets sound.state t leaves))
    rw [moved, take_eq found]
    refine ⟨?_, frames_executeAll _ x⟩
    split
    · exact .inl rfl
    · exact .inr ⟨t, member, Machine.state_eq_ok_iff.mpr found⟩

/-- An event leaves a sound machine sound, at its state or one transition on the event further. -/
theorem react (sound : r.IsSound) {event : Event} {reaction : Reaction}
    (handled : r.react event = .ok (next, reaction)) :
    next.IsSound ∧ next.machine = r.machine ∧ (next.state = r.state ∨
      ∃ t ∈ r.state.transitionsOn event.name, r.machine.state t.target = .ok next.state) := by
  rw [Running.react] at handled
  obtain ⟨data, -, handled⟩ := bind_eq_ok_iff.mp handled
  obtain ⟨moved, kept⟩ := sound.move event.name (ofMemories (data :: r.memories))
  rcases moving : r.move event.name (ofMemories (data :: r.memories)) with ⟨checks, state, log, x⟩
  rw [moving] at moved kept handled
  dsimp only at moved kept
  obtain ⟨left, locals, persistent, ofLocals, ofPersistent, settled⟩ := exists_settle kept state
  simp only [settled, Except.ok.injEq, Prod.mk.injEq] at handled
  obtain ⟨rfl, -⟩ := handled
  refine ⟨⟨sound.closed, ?_, ofLocals.trans sound.locals, ofPersistent.trans sound.persistent⟩,
    rfl, moved⟩
  rcases moved with rfl | ⟨t, -, found⟩
  · exact sound.state
  · exact Table.mem_values_iff.mpr ⟨t.target, Machine.state_eq_ok_iff.mp found⟩

/-- After any events a sound machine is sound, and at the end of a walk whose transitions are on
some of the events, in their order. -/
theorem reactAll (sound : r.IsSound) (events : List Event) :
    (r.reactAll events).IsSound ∧ (r.reactAll events).machine = r.machine ∧
      ∃ path, r.machine.Walk r.state.name path (r.reactAll events).state.name ∧
        (path.map Transition.event).Sublist (events.map Event.name) := by
  induction events generalizing r with
  | nil => exact ⟨sound, rfl, [], .stay _, .slnil⟩
  | cons event rest ih =>
    rw [Running.reactAll]
    split
    · next next _ handled =>
      obtain ⟨soundNext, same, moved⟩ := sound.react handled
      obtain ⟨soundLast, sameLast, path, walk, within⟩ := ih soundNext
      rw [same] at sameLast walk
      refine ⟨soundLast, sameLast, ?_⟩
      rcases moved with stays | ⟨t, member, found⟩
      · exact ⟨path, stays ▸ walk, within.cons _⟩
      · obtain ⟨leaves, waits⟩ := List.mem_filter.mp member
        have named : next.state.name = t.target :=
          sound.closed.named (Machine.state_eq_ok_iff.mp found)
        have here : r.machine.state r.state.name = .ok r.state :=
          sound.closed.state_name sound.state
        refine ⟨t :: path, .step here leaves (named ▸ walk), ?_⟩
        rw [List.map_cons, List.map_cons, eq_of_beq waits]
        exact within.cons_cons _
    · obtain ⟨soundLast, sameLast, path, walk, within⟩ := ih sound
      exact ⟨soundLast, sameLast, path, walk, within.cons _⟩

end IsSound

/-- A machine with a closed graph is started soundly, at the state that is asked for. -/
theorem isSound_of_start {system : System} {machine state : String} {log : Log}
    (closed : ∀ m ∈ system.machines.values, m.IsClosed)
    (started : start system machine state = .ok (r, log)) : r.IsSound ∧ r.state.name = state := by
  rw [start] at started
  obtain ⟨m, found, started⟩ := bind_eq_ok_iff.mp started
  obtain ⟨s, placed, started⟩ := bind_eq_ok_iff.mp started
  obtain ⟨locals, ofLocals, started⟩ := bind_eq_ok_iff.mp started
  obtain ⟨persistent, ofPersistent, started⟩ := bind_eq_ok_iff.mp started
  rw [mapError_eq_ok_iff] at found placed ofLocals ofPersistent
  rcases entered : executeAll s.entry (ofMemories [locals, persistent]) with ⟨entering, x⟩
  rw [entered] at started
  have kept := frames_executeAll s.entry (ofMemories [locals, persistent])
  rw [entered] at kept
  obtain ⟨last, lastPersistent, sameLocals, samePersistent, running⟩ :=
    withContents_of_scopes (r := ⟨m, s, locals, persistent⟩) (map_scope_of_frames kept)
  simp only [running, Except.ok.injEq, Prod.mk.injEq] at started
  obtain ⟨rfl, -⟩ := started
  have member : m ∈ system.machines.values := by
    rw [System.machine] at found
    split at found
    · next held =>
      obtain rfl := Except.ok.inj found
      exact Table.mem_values_iff.mpr ⟨machine, held⟩
    · cases found
  have held := Machine.state_eq_ok_iff.mp placed
  refine ⟨⟨closed m member, Table.mem_values_iff.mpr ⟨state, held⟩, ?_, ?_⟩,
    (closed m member).named held⟩
  · exact sameLocals.trans ((Machine.initialization m.localContext _).solves _ ofLocals).1
  · exact samePersistent.trans
      ((Machine.initialization m.persistentContext _).solves _ ofPersistent).1

end Running

namespace SystemDecl

/-- In a session of a built system a machine walks along its transitions from the state in which it
was started, by transitions on some of the events, in their order. It never comes to an abstract
state unless it is abstract itself, and its contexts stay of their scopes. -/
theorem session_walks {s : SystemDecl} {o : Options} {system : System}
    (built : s.build o = .ok system) {machine state : String} {r : Running} {log : Log}
    (started : Running.start system machine state = .ok (r, log)) (events : List Event) :
    (r.reactAll events).IsSound ∧ (r.reactAll events).machine = r.machine ∧
      (r.machine.isAbstract = false → (r.reactAll events).state.isAbstract = false) ∧
      ∃ path, r.machine.Walk state path (r.reactAll events).state.name ∧
        (path.map Transition.event).Sublist (events.map Event.name) := by
  obtain ⟨sound, rfl⟩ :=
    Running.isSound_of_start (fun _ member => isClosed_of_build built member) started
  obtain ⟨soundLast, same, walk⟩ := sound.reactAll events
  refine ⟨soundLast, same, fun concrete => ?_, walk⟩
  exact soundLast.closed.concrete (same ▸ concrete) _ soundLast.state

/-- A turnstile that a coin frees and a push locks again; it counts who passes. -/
def turnstile : SystemDecl :=
  let count := Action.assign "passed" (.binary .add (.var "passed") (.literal (.integer 1)))
  let locked := (StateDecl.ofName "locked").on (.ofEvent "coin" "free")
  let free := (StateDecl.ofName "free").on
    ((TransitionDecl.ofEvent "push" "locked").andThen (.inline count))
  let machine := (MachineDecl.ofName "turnstile").withLocal "passed" (.literal (.integer 0))
  ⟨"gate", [(machine.withState locked).withState free]⟩

-- The first push finds the turnstile locked.
example : (do
    let system ← (turnstile.build .standard).toOption
    let (running, _) ← (Running.start system "turnstile" "locked").toOption
    let last := running.reactAll [⟨"push", []⟩, ⟨"coin", []⟩, ⟨"push", []⟩]
    pure (last.state.name, last.locals.get "passed")) = some ("locked", .ok (.integer 1)) := by
  decide +kernel

end SystemDecl

end StateMachines
