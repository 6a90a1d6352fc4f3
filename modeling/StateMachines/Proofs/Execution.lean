import StateMachines.Behavior.Action
import StateMachines.Proofs.Changing

/-! # What an action does

An action that fails leaves every context as it was, wherever it failed: in an expression, in the
search for its variable, in a context that cannot be read, or on the disk. One that succeeds has
changed what its outcome says and nothing else.
-/

namespace StateMachines

/-- What an outcome says of the extents before and after. -/
def Outcome.Reports (x y : Extent) : Outcome → Prop
  | .assigned name value => (∃ old, x.get name = .ok old) ∧ y.get name = .ok value ∧
    ∃ inner c outer, (∀ b ∈ inner, name ∉ b.contents.vars.names) ∧
      x.DiffersIn y inner c outer (.assign name value)
  | .created name value => ((∀ c ∈ x.scopes, c.Reads name) → y.get name = .ok value) ∧
    ∃ c outer, x.DiffersIn y [] c outer (.create name value)
  | .deleted name => ∃ inner c outer, (∀ b ∈ inner, name ∉ b.contents.vars.names) ∧
    x.DiffersIn y inner c outer (.delete name)
  | .raised _ => y = x

/-- An outcome of an effect: it concerns the variable or the event of the effect, with the values
that the expressions have in the extent before. -/
def Effect.Yields (x : Extent) : Effect → Outcome → Prop
  | .assign name e, .assigned target value => target = name ∧ e.evaluate x = .ok value
  | .assign name e, .created target value => target = name ∧ e.evaluate x = .ok value ∧
    ∀ c ∈ x.scopes, name ∉ c.contents.vars.names
  | .create name e, .created target value => target = name ∧ e.evaluate x = .ok value
  | .delete name, .deleted target => target = name
  | .raise event data, .raised raised =>
    raised.name = event ∧ Action.evaluateData x data = .ok raised.data
  | _, _ => False

namespace Extent

variable {x y : Extent} {name : String} {value : Value}

theorem reports_create (created : x.create name value = (.ok (), y)) :
    (Outcome.created name value).Reports x y := by
  rcases create_cases created with ⟨_, failed, -⟩ | ⟨-, c, outer, rewrites⟩
  · cases failed
  refine ⟨fun readable => ?_, c, outer, rewrites.differsIn⟩
  exact rewrites.get_name (by simp) (readable c (by simp [rewrites.1]))

theorem reports_assign (assigned : x.assign name value = (.ok (), y)) :
    (Outcome.assigned name value).Reports x y := by
  rcases changeVisible_cases assigned with
    ⟨_, failed, -⟩ | ⟨-, inner, c, outer, old, stops, read, rewrites⟩
  · cases failed
  have reads : c.Reads name := by simp [Context.Reads, read]
  refine ⟨⟨old, stops.get.trans read⟩, rewrites.get_name stops.lacking reads, inner, c, outer, ?_,
    rewrites.differsIn⟩
  exact fun b member => Context.not_mem_of_lacks (stops.lacking b member)

theorem reports_delete (deleted : x.delete name = (.ok (), y)) :
    (Outcome.deleted name).Reports x y := by
  rcases changeVisible_cases deleted with
    ⟨_, failed, -⟩ | ⟨-, inner, c, outer, -, stops, -, rewrites⟩
  · cases failed
  exact ⟨inner, c, outer, fun b member => Context.not_mem_of_lacks (stops.lacking b member),
    rewrites.differsIn⟩

/-- A change that is refused leaves the contexts. -/
theorem scopes_of_create {e : ContextError} (refused : x.create name value = (.error e, y)) :
    y.scopes = x.scopes := by
  rcases create_cases refused with ⟨_, -, same⟩ | ⟨done, -⟩
  · exact same
  · cases done

theorem scopes_of_changeVisible {ch : Change} {e : ContextError}
    (refused : x.changeVisible name ch = (.error e, y)) : y.scopes = x.scopes := by
  rcases changeVisible_cases refused with ⟨_, -, same⟩ | ⟨done, -⟩
  · exact same
  · cases done

end Extent

namespace Action

open Extent

variable {x : Extent} {name : String}

/-- What is promised of an effect in an extent: nothing happens to the contexts if it fails, and
else what the outcome says. -/
def Kept (effect : Effect) (x : Extent) : Except EvaluationError Outcome × Extent → Prop
  | (.error _, y) => y.scopes = x.scopes
  | (.ok outcome, y) => effect.Yields x outcome ∧ outcome.Reports x y

theorem kept_created {effect : Effect} {value : Value}
    (yields : effect.Yields x (.created name value)) :
    Kept effect x (answer (fun _ => .created name value) (x.create name value)) := by
  rcases ran : x.create name value with ⟨_ | _, y⟩
  · exact scopes_of_create ran
  · exact ⟨yields, reports_create ran⟩

theorem kept_assigned {effect : Effect} {value : Value}
    (yields : effect.Yields x (.assigned name value)) :
    Kept effect x (answer (fun _ => .assigned name value) (x.assign name value)) := by
  rcases ran : x.assign name value with ⟨_ | _, y⟩
  · exact scopes_of_changeVisible ran
  · exact ⟨yields, reports_assign ran⟩

theorem kept_deleted : Kept (.delete name) x (answer (fun _ => .deleted name) (x.delete name)) := by
  rcases ran : x.delete name with ⟨_ | _, y⟩
  · exact scopes_of_changeVisible ran
  · exact ⟨rfl, reports_delete ran⟩

/-- Raising an event fails for a repeated field or an expression, and never touches the extent. -/
theorem kept_raised (event : String) (data : List Binding) :
    Kept (.raise event data) x ((raiseEvent x event data).map .raised, x) := by
  unfold raiseEvent
  split
  · exact rfl
  · cases evaluated : evaluateData x data with
    | error e => exact rfl
    | ok vars => exact ⟨⟨rfl, evaluated⟩, rfl⟩

/-- What is answered after a variable has been set depends on how it was placed. -/
theorem answer_placed (outcome : Placement → Outcome) (placement : Placement)
    (changed : Except ContextError Unit × Extent) :
    answer outcome (placed placement changed) = answer (fun _ => outcome placement) changed := by
  obtain ⟨_ | _, y⟩ := changed <;> rfl

/-- An action keeps what is promised of its effect, whatever the effect is. -/
theorem kept_execute (a : Action) (x : Extent) : Kept a.effect x (a.execute x) := by
  obtain ⟨label, effect⟩ := a
  cases effect with
  | assign name e =>
    cases evaluated : e.evaluate x with
    | error reason => simp only [execute, evaluated, Kept]
    | ok value =>
      simp only [execute, evaluated]
      rcases x.set_eq name value with ⟨lacking, same⟩ | ⟨-, same⟩
      · rw [same, answer_placed]
        refine kept_created ⟨rfl, evaluated, ?_⟩
        exact fun c member => Context.not_mem_of_lacks (lacking c member)
      · rw [same, answer_placed]
        have yields : (Effect.assign name e).Yields x (.assigned name value) := ⟨rfl, evaluated⟩
        exact kept_assigned yields
  | create name e =>
    cases evaluated : e.evaluate x with
    | error reason => simp only [execute, evaluated, Kept]
    | ok value =>
      simp only [execute, evaluated]
      have yields : (Effect.create name e).Yields x (.created name value) := ⟨rfl, evaluated⟩
      exact kept_created yields
  | delete name => exact kept_deleted
  | raise event data => exact kept_raised event data

/-- An action that fails leaves all contexts as they were. One that succeeds has done to its
variable or event what its outcome says, in the one context where the outcome says it, and nothing
else. -/
theorem execute_changes_what_it_reports (a : Action) (x : Extent) :
    match a.execute x with
    | (.error _, y) => y.scopes = x.scopes
    | (.ok outcome, y) => a.effect.Yields x outcome ∧ outcome.Reports x y := by
  have kept := kept_execute a x
  rcases ran : a.execute x with ⟨_ | outcome, y⟩ <;> rw [ran] at kept
  · exact kept
  · exact kept

end Action

end StateMachines
