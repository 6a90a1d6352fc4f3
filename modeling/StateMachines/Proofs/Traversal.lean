import StateMachines.Proofs.Buildable
import StateMachines.Visit

/-! # What a visit meets

The outline of a system shows each part and what is in it. A visitor that does the same at every
part does it to the parts of the outline in order, but for those below a level at which it stops,
and ends where doing so one part after the other ends. A visitor that says something of actions
only, or of guards only, is such a visitor, so it gets the actions or the guards among all parts.
-/

namespace StateMachines

/-! ## Outlines -/

namespace Part

/-- The level of a part that has parts. -/
def level? : Part → Option Level
  | system _ => some .system
  | machine _ => some .machine
  | state _ => some .state
  | transition _ => some .transition
  | action _ | guard _ => none

/-- Nothing is met below the part. -/
def isStopped (stop : Level → Bool) (p : Part) : Bool := p.level?.any stop

end Part

/-- A part as it is met, and the parts that it is in, outermost first. -/
structure Visit where
  part : Part
  within : List Part

/-- The visit is strictly below a part of a level that is stopped at. -/
def Visit.isBelow (stop : Level → Bool) (v : Visit) : Bool := v.within.any (Part.isStopped stop)

/-- A part of a system and what is in it, in order. -/
inductive Outline
  | part (p : Part) (below : List Outline)

namespace Outline

/-- A part with nothing in it. -/
def leaf (p : Part) : Outline := part p []

mutual

/-- Every part of an outline that stands within other parts, each before what is in it. -/
def visits (within : List Part) : Outline → List Visit
  | part p below => ⟨p, within⟩ :: visitsOf (within ++ [p]) below

def visitsOf (within : List Part) : List Outline → List Visit
  | [] => []
  | first :: rest => first.visits within ++ visitsOf within rest

end

theorem visitsOf_eq_flatMap (within : List Part) (outlines : List Outline) :
    visitsOf within outlines = outlines.flatMap (visits within) := by
  induction outlines with
  | nil => rfl
  | cons first rest ih => rw [visitsOf, ih, List.flatMap_cons]

mutual

/-- What is in a part is within whatever the part is in. -/
theorem subset_within (within : List Part) : (o : Outline) →
    ∀ v ∈ o.visits within, within ⊆ v.within
  | part p below, v, member => by
    rw [visits, List.mem_cons] at member
    rcases member with rfl | deeper
    · exact List.Subset.refl _
    · exact List.Subset.trans (List.subset_append_left within [p])
        (subset_within_of (within ++ [p]) below v deeper)

theorem subset_within_of (within : List Part) : (outlines : List Outline) →
    ∀ v ∈ visitsOf within outlines, within ⊆ v.within
  | [], v, member => by contradiction
  | first :: rest, v, member => by
    rw [visitsOf, List.mem_append] at member
    rcases member with here | later
    · exact subset_within within first v here
    · exact subset_within_of within rest v later

end

/-- The parts of an outline but for those below a level that is stopped at. -/
def unstopped (stop : Level → Bool) (within : List Part) (o : Outline) : List Part :=
  ((o.visits within).filter fun v => !v.isBelow stop).map Visit.part

variable {stop : Level → Bool} {within : List Part}

theorem unstopped_part (opened : within.any (Part.isStopped stop) = false) (p : Part)
    (below : List Outline) : unstopped stop within (part p below) =
      p :: if p.isStopped stop then [] else below.flatMap (unstopped stop (within ++ [p])) := by
  have here : (Visit.mk p within).isBelow stop = false := opened
  rw [unstopped, visits, List.filter_cons_of_pos (by simp [here]), List.map_cons]
  split
  · -- Whatever is in the part has it among the parts around it.
    next stopped =>
    have allBelow : ∀ v ∈ visitsOf (within ++ [p]) below, v.isBelow stop = true := by
      intro v member
      have inside : p ∈ v.within := subset_within_of _ below v member (by simp)
      exact List.any_eq_true.mpr ⟨p, inside, stopped⟩
    rw [List.filter_eq_nil_iff.mpr (by simpa using allBelow), List.map_nil]
  · rw [visitsOf_eq_flatMap, List.filter_flatMap, List.map_flatMap]
    rfl

theorem unstopped_leaf (opened : within.any (Part.isStopped stop) = false) (p : Part) :
    unstopped stop within (leaf p) = [p] := by
  rw [leaf, unstopped_part opened]
  simp

theorem flatMap_unstopped_leaf (opened : within.any (Part.isStopped stop) = false)
    (parts : List Part) : (parts.map leaf).flatMap (unstopped stop within) = parts := by
  rw [List.flatMap_map]
  simp [unstopped_leaf opened]

theorem any_isStopped_append {p : Part} (opened : within.any (Part.isStopped stop) = false)
    (also : p.isStopped stop = false) : (within ++ [p]).any (Part.isStopped stop) = false := by
  simp [opened, also]

end Outline

/-! ## The outline of a system -/

/-- A transition: its guard, then its actions. -/
def Transition.outline (t : Transition) : Outline :=
  .part (.transition t) ((t.guard.toList.map Part.guard ++ t.actions.map Part.action).map .leaf)

/-- A state: actions on entry, transitions, actions on exit. -/
def State.outline (s : State) : Outline :=
  .part (.state s) ((s.entry.map Part.action).map .leaf ++ s.transitions.map Transition.outline
    ++ (s.exit.map Part.action).map .leaf)

/-- A machine: states, named actions, named guards. -/
def Machine.outline (m : Machine) : Outline :=
  .part (.machine m) (m.states.values.map State.outline
    ++ (m.actions.values.map Part.action ++ m.guards.values.map Part.guard).map .leaf)

/-- A system: its machines. -/
def System.outline (s : System) : Outline :=
  .part (.system s) (s.machines.values.map Machine.outline)

/-! ## The same at every part -/

section Observing

variable {σ : Type} {note : Part → σ → σ} {stop : Level → Bool} {within : List Part}

/-- Things that are each visited as in their outlines are visited so one after the other. -/
theorem visitEach_of_outline {α : Type} {visit : α → σ → σ} {outline : α → Outline}
    (each : ∀ x seen, visit x seen = visitEach note ((outline x).unstopped stop within) seen)
    (things : List α) (seen : σ) : visitEach visit things seen =
      visitEach note ((things.map outline).flatMap (Outline.unstopped stop within)) seen := by
  simp only [visitEach] at each ⊢
  rw [List.flatMap_map, List.foldl_flatMap]
  simp only [each]

theorem visitEach_append {α : Type} (visit : α → σ → σ) (front back : List α) (seen : σ) :
    visitEach visit (front ++ back) seen = visitEach visit back (visitEach visit front seen) :=
  List.foldl_append

theorem visitEach_map {α β : Type} (visit : β → σ → σ) (f : α → β) (things : List α) (seen : σ) :
    visitEach visit (things.map f) seen = visitEach (fun x => visit (f x)) things seen :=
  List.foldl_map

/-- A part is noted, and what is in it is met unless its level is stopped at. -/
theorem Outline.observe {p : Part} {level : Level} (stands : p.level? = some level)
    (opened : within.any (Part.isStopped stop) = false) {below : List Outline} {walk : σ → σ}
    (walks : (within ++ [p]).any (Part.isStopped stop) = false → ∀ seen, walk seen =
      visitEach note (below.flatMap (unstopped stop (within ++ [p]))) seen) (seen : σ) :
    (if stop level then id else walk) (note p seen) =
      visitEach note ((part p below).unstopped stop within) seen := by
  have stopped_eq : p.isStopped stop = stop level := by simp [Part.isStopped, stands]
  rw [unstopped_part opened, stopped_eq]
  by_cases stopped : stop level
  · simp [stopped, visitEach]
  · have also : p.isStopped stop = false := by simpa [stopped_eq] using stopped
    simp only [stopped, Bool.false_eq_true, if_false]
    exact walks (any_isStopped_append opened also) (note p seen)

variable (opened : within.any (Part.isStopped stop) = false)
include opened

theorem Transition.accept_observing (t : Transition) (seen : σ) :
    t.accept (.observing note stop) seen =
      visitEach note (t.outline.unstopped stop within) seen := by
  refine Outline.observe rfl opened (fun deeper seen => ?_) seen
  -- What is left is the walk over what is in the part, and so at every level.
  rw [Outline.flatMap_unstopped_leaf deeper, visitEach_append, visitEach_map, visitEach_map]
  rfl

theorem State.accept_observing (s : State) (seen : σ) :
    s.accept (.observing note stop) seen =
      visitEach note (s.outline.unstopped stop within) seen := by
  refine Outline.observe rfl opened (fun deeper seen => ?_) seen
  rw [List.flatMap_append, List.flatMap_append, Outline.flatMap_unstopped_leaf deeper,
    Outline.flatMap_unstopped_leaf deeper, visitEach_append, visitEach_append, visitEach_map,
    visitEach_map, ← visitEach_of_outline (Transition.accept_observing deeper)]
  rfl

theorem Machine.accept_observing (m : Machine) (seen : σ) :
    m.accept (.observing note stop) seen =
      visitEach note (m.outline.unstopped stop within) seen := by
  refine Outline.observe rfl opened (fun deeper seen => ?_) seen
  rw [List.flatMap_append, Outline.flatMap_unstopped_leaf deeper, visitEach_append,
    visitEach_append, visitEach_map, visitEach_map,
    ← visitEach_of_outline (State.accept_observing deeper)]
  rfl

theorem System.accept_observing (s : System) (seen : σ) :
    s.accept (.observing note stop) seen =
      visitEach note (s.outline.unstopped stop within) seen := by
  refine Outline.observe rfl opened (fun deeper seen => ?_) seen
  rw [← visitEach_of_outline (Machine.accept_observing deeper)]
  rfl

end Observing

/-! ## Actions and guards -/

section Only

variable {σ : Type}

/-- What a visitor does that says something of actions only. -/
def Part.onAction (receive : Action → σ → σ) : Part → σ → σ
  | .action a => receive a
  | _ => id

/-- What a visitor does that says something of guards only. -/
def Part.onGuard (receive : Guard → σ → σ) : Part → σ → σ
  | .guard g => receive g
  | _ => id

theorem Visitor.onAction_eq_observing (receive : Action → σ → σ) :
    ({ onAction := receive } : Visitor σ) = .observing (Part.onAction receive) visitAll := rfl

theorem Visitor.onGuard_eq_observing (receive : Guard → σ → σ) :
    ({ onGuard := receive } : Visitor σ) = .observing (Part.onGuard receive) visitAll := rfl

theorem visitEach_onAction (receive : Action → σ → σ) (parts : List Part) (seen : σ) :
    visitEach (Part.onAction receive) parts seen = visitEach receive (Part.actions parts) seen := by
  rw [visitEach, visitEach, Part.actions, List.foldl_filterMap]
  congr 1
  funext seen p
  cases p <;> rfl

theorem visitEach_onGuard (receive : Guard → σ → σ) (parts : List Part) (seen : σ) :
    visitEach (Part.onGuard receive) parts seen = visitEach receive (Part.guards parts) seen := by
  rw [visitEach, visitEach, Part.guards, List.foldl_filterMap]
  congr 1
  funext seen p
  cases p <;> rfl

end Only

section Whole

variable (within : List Part)

theorem isStopped_visitAll (p : Part) : p.isStopped visitAll = false := by cases p <;> rfl

theorem any_isStopped_visitAll : within.any (Part.isStopped visitAll) = false :=
  List.any_eq_false.mpr fun p _ => by simp [isStopped_visitAll]

/-- All parts of an outline: the part itself, then those of what is in it. -/
theorem unstopped_visitAll (p : Part) (below : List Outline) :
    (Outline.part p below).unstopped visitAll within =
      p :: below.flatMap (Outline.unstopped visitAll (within ++ [p])) := by
  rw [Outline.unstopped_part (any_isStopped_visitAll within), isStopped_visitAll]
  rfl

theorem flatMap_unstopped_visitAll_leaf (parts : List Part) :
    (parts.map Outline.leaf).flatMap (Outline.unstopped visitAll within) = parts :=
  Outline.flatMap_unstopped_leaf (any_isStopped_visitAll within) parts

/-- The actions and the guards that are met in a transition are its own. -/
theorem Transition.met_outline (t : Transition) :
    Part.actions (t.outline.unstopped visitAll within) = t.actions ∧
      Part.guards (t.outline.unstopped visitAll within) = t.guard.toList := by
  rw [outline, unstopped_visitAll, flatMap_unstopped_visitAll_leaf]
  constructor
  · simp [Part.actions, List.filterMap_map]
  · simp [Part.guards, List.filterMap_map]

/-- The actions that are met in a state are its own, and the guards those of its transitions. -/
theorem State.met_outline (s : State) :
    Part.actions (s.outline.unstopped visitAll within) = s.actions ∧
      Part.guards (s.outline.unstopped visitAll within) =
        s.transitions.filterMap Transition.guard := by
  have inside (t : Transition) := t.met_outline (within ++ [.state s])
  simp only [Part.actions, Part.guards] at inside
  rw [outline, unstopped_visitAll, List.flatMap_append, List.flatMap_append,
    flatMap_unstopped_visitAll_leaf, flatMap_unstopped_visitAll_leaf]
  constructor
  · simp [Part.actions, List.filterMap_map, List.filterMap_flatMap, List.flatMap_map, inside,
      State.actions]
  · rw [List.filterMap_eq_flatMap_toList Transition.guard]
    simp [Part.guards, List.filterMap_map, List.filterMap_flatMap, List.flatMap_map, inside]

/-- The actions that are met in a machine are those of its states and its named ones, and the guards
those along its edges and its named ones. -/
theorem Machine.met_outline (m : Machine) :
    Part.actions (m.outline.unstopped visitAll within) =
        m.states.values.flatMap State.actions ++ m.actions.values ∧
      Part.guards (m.outline.unstopped visitAll within) =
        m.edges.filterMap (fun (_, t) => t.guard) ++ m.guards.values := by
  have inside (s : State) := s.met_outline (within ++ [.machine m])
  simp only [Part.actions, Part.guards] at inside
  rw [outline, unstopped_visitAll, List.flatMap_append, flatMap_unstopped_visitAll_leaf]
  constructor
  · simp [Part.actions, List.filterMap_map, List.filterMap_flatMap, List.flatMap_map, inside]
  · simp [Part.guards, List.filterMap_map, List.filterMap_flatMap, List.flatMap_map, inside, edges]

/-- In a system they are those of its machines. -/
theorem System.met_outline (s : System) :
    Part.actions (s.outline.unstopped visitAll within) = (s.machines.values.flatMap fun m =>
        m.states.values.flatMap State.actions ++ m.actions.values) ∧
      Part.guards (s.outline.unstopped visitAll within) = (s.machines.values.flatMap fun m =>
        m.edges.filterMap (fun (_, t) => t.guard) ++ m.guards.values) := by
  have inside (m : Machine) := m.met_outline (within ++ [.system s])
  simp only [Part.actions, Part.guards] at inside
  rw [outline, unstopped_visitAll]
  constructor
  · simp [Part.actions, List.filterMap_flatMap, List.flatMap_map, inside]
  · simp [Part.guards, List.filterMap_flatMap, List.flatMap_map, inside]

end Whole

/-! ## Visits of a system -/

theorem visitEach_snoc (parts met : List Part) :
    visitEach (fun part met => met ++ [part]) parts met = met ++ parts := by
  induction parts generalizing met with
  | nil => simp [visitEach]
  | cons p rest ih =>
    have later := ih (met ++ [p])
    simp only [visitEach] at later
    rw [visitEach, List.foldl_cons, later, List.append_assoc, List.singleton_append]

namespace System

/-- Every part of a system with the parts that it is in, in order. -/
def visits (s : System) : List Visit := s.outline.visits []

/-- Visits of a system are complete and in order: a visitor of actions gets those of each state and
the named ones, machine by machine; a visitor of guards gets those along the edges and the named
ones; and one that keeps everything it meets keeps all parts, each once, but for those that are
below a level at which it stops. -/
structure IsVisitedInOrder (s : System) : Prop where
  actions : ∀ {σ : Type} (receive : Action → σ → σ) (start : σ),
    s.accept { onAction := receive } start = visitEach receive (s.machines.values.flatMap fun m =>
      m.states.values.flatMap State.actions ++ m.actions.values) start
  guards : ∀ {σ : Type} (receive : Guard → σ → σ) (start : σ),
    s.accept { onGuard := receive } start = visitEach receive (s.machines.values.flatMap fun m =>
      m.edges.filterMap (fun (_, t) => t.guard) ++ m.guards.values) start
  whole : s.visit visitAll = s.visits.map Visit.part
  stopped : ∀ stop, s.visit stop = (s.visits.filter fun v => !v.isBelow stop).map Visit.part

theorem visit_eq_unstopped (s : System) (stop : Level → Bool) :
    s.visit stop = (s.visits.filter fun v => !v.isBelow stop).map Visit.part := by
  have met : s.visit stop =
      visitEach (fun part met => met ++ [part]) (s.outline.unstopped stop []) [] :=
    s.accept_observing rfl []
  rw [met, visitEach_snoc, List.nil_append]
  rfl

theorem isVisitedInOrder (s : System) : s.IsVisitedInOrder where
  actions := by
    intro σ receive start
    rw [Visitor.onAction_eq_observing, s.accept_observing (any_isStopped_visitAll []),
      visitEach_onAction, (s.met_outline []).1]
  guards := by
    intro σ receive start
    rw [Visitor.onGuard_eq_observing, s.accept_observing (any_isStopped_visitAll []),
      visitEach_onGuard, (s.met_outline []).2]
  whole := by
    have all (v : Visit) : v.isBelow visitAll = false := any_isStopped_visitAll v.within
    simp [visit_eq_unstopped, all]
  stopped := s.visit_eq_unstopped

end System

namespace SystemDecl

/-- The machines of a built system are visited in the order of their declarations, and everything in
them is, in order. -/
theorem visits_complete_and_ordered (s : SystemDecl) (o : Options) {system : System}
    (built : s.build o = .ok system) :
    system.machines.values.map Machine.name = s.machines.map MachineDecl.name ∧
      system.IsVisitedInOrder := by
  refine ⟨?_, system.isVisitedInOrder⟩
  rw [← names_of_build built, Table.names, (machines_of_build built).2, List.map_map]
  rfl

/-- A house with a door that creaks if it is unlocked and pushed. -/
def houseWithDoor : SystemDecl :=
  let closed := ((StateDecl.ofName "closed").onEntry (.inline (.delete "key"))).on
    (((TransitionDecl.ofEvent "push" "open").guardedBy (.named "unlocked")).andThen
      (.inline (.raise "creak")))
  let door := (((MachineDecl.ofName "door").withState closed).withState
    (StateDecl.ofName "open")).withAction ((Action.raise "slam").named "shut")
  ⟨"house", [door.withGuard ((Guard.ofExpr (.var "turned")).named "unlocked")]⟩

theorem houseWithDoor_builds : ∃ system, houseWithDoor.build .standard = .ok system ∧
    (system.visit visitAll).length = 10 ∧ (system.visit (· == .state)).length = 6 :=
  exists_built (by decide +kernel)

theorem visits_complete_and_ordered_door :
    ∃ system, houseWithDoor.build .standard = .ok system ∧ (system.visit visitAll).length = 10 ∧
      (system.visit (· == .state)).length = 6 ∧ system.machines.values.map Machine.name = ["door"] ∧
      system.IsVisitedInOrder := by
  obtain ⟨system, built, all, few⟩ := houseWithDoor_builds
  exact ⟨system, built, all, few, visits_complete_and_ordered houseWithDoor .standard built⟩

end SystemDecl

end StateMachines
