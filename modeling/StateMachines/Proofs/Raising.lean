import StateMachines.Behavior.Action
import StateMachines.Proofs.Resolution
import StateMachines.Proofs.Restoration

/-! # Raising events

Names that repeat in the data of an event are looked for twice: before the event is raised, by a
scan over the names alone, and when it is handled, by the context that its data is made into. The
two agree, so data that is raised can be handled. Names come before values: a repeated name is
reported even if some expression before it fails, and only after that the expressions are evaluated,
in order and in the extent as it is.
-/

namespace StateMachines

/-! ## The first name that repeats -/

section Repeats

variable {seen names before after : List String} {name : String}

/-- A scan goes on after distinct names that are new, and remembers them. -/
theorem firstRepeated?_append (distinct : before.Nodup) (fresh : ∀ b ∈ before, b ∉ seen) :
    firstRepeated? seen (before ++ after) = firstRepeated? (before.reverse ++ seen) after := by
  induction before generalizing seen with
  | nil => rfl
  | cons first rest ih =>
    obtain ⟨apart, distinct⟩ := List.nodup_cons.mp distinct
    obtain ⟨new, fresh⟩ := List.forall_mem_cons.mp fresh
    rw [List.cons_append, firstRepeated?, if_neg new, ih distinct]
    · rw [List.reverse_cons, List.append_assoc, List.singleton_append]
    · intro b member
      rw [List.mem_cons, not_or]
      exact ⟨fun same => apart (same ▸ member), fresh b member⟩

theorem firstRepeated?_of_nodup (distinct : names.Nodup) : firstRepeated? [] names = none := by
  have scanned : firstRepeated? [] (names ++ []) = firstRepeated? (names.reverse ++ []) [] :=
    firstRepeated?_append distinct fun b _ => List.not_mem_nil
  rwa [List.append_nil] at scanned

theorem firstRepeated?_of_repeats (distinct : before.Nodup) (earlier : name ∈ before) :
    firstRepeated? [] (before ++ name :: after) = some name := by
  rw [firstRepeated?_append distinct fun b _ => List.not_mem_nil, firstRepeated?, if_pos]
  simpa using earlier

end Repeats

/-! ## The data of an event -/

/-- A variable is what a field comes to: it has the name of the field, the value of its expression
and the tag of event data. -/
structure Binding.Gives (x : Extent) (field : Binding) (v : Variable) : Prop where
  name : v.name = field.name
  value : field.value.evaluate x = .ok v.value
  scope : v.scope = .eventData

/-- The expression of a field has a value. -/
def Binding.Evaluates (x : Extent) (field : Binding) : Prop := ∃ v, field.value.evaluate x = .ok v

/-- What is wrong with data that cannot be raised: the first field that repeats a name, whatever the
expressions are; or else the first expression that fails. -/
inductive Unraisable (x : Extent) (data : List Binding) : EvaluationError → Prop
  | repeated {before after : List Binding} {field : Binding}
      (split : data = before ++ field :: after) (distinct : (before.map Binding.name).Nodup)
      (earlier : field.name ∈ before.map Binding.name) :
      Unraisable x data (.context (.variableExists field.name .eventData))
  | failing {before after : List Binding} {field : Binding} {e : EvaluationError}
      (distinct : (data.map Binding.name).Nodup) (split : data = before ++ field :: after)
      (evaluated : ∀ b ∈ before, b.Evaluates x) (fails : field.value.evaluate x = .error e) :
      Unraisable x data e

/-- The data of an event makes a context, which lists it as it is. -/
def Event.IsUsable (e : Event) : Prop :=
  ∃ m, e.dataContext = .ok m ∧ m.scope = .eventData ∧ m.list = e.data

namespace Action

variable {x : Extent} {event : String} {data before after : List Binding} {field : Binding}
  {vars : List Variable} {raised : Event} {e : EvaluationError}

theorem gives_iff {v : Variable} :
    ((field.value.evaluate x).map fun value => Variable.mk field.name value .eventData) = .ok v ↔
      field.Gives x v := by
  obtain ⟨name, value, scope⟩ := v
  constructor
  · intro done
    cases evaluated : field.value.evaluate x with
    | error e => simp [evaluated, Except.map] at done
    | ok value' =>
      rw [evaluated] at done
      obtain ⟨rfl, rfl, rfl⟩ := Variable.mk.inj (Except.ok.inj done)
      exact ⟨rfl, evaluated, rfl⟩
  · rintro ⟨rfl, evaluated, rfl⟩
    rw [evaluated]
    rfl

theorem evaluateData_eq_ok_iff :
    evaluateData x data = .ok vars ↔ List.Forall₂ (Binding.Gives x) data vars := by
  simp only [evaluateData, mapM_eq_ok_iff, gives_iff]

theorem exists_evaluateData_iff :
    (∃ vars, evaluateData x data = .ok vars) ↔ ∀ field ∈ data, field.Evaluates x := by
  rw [evaluateData, exists_mapM_iff]
  refine forall₂_congr fun field _ => ?_
  rw [Binding.Evaluates]
  cases field.value.evaluate x <;> simp [Except.map]

/-- Evaluating data stops at the first expression that fails. -/
theorem evaluateData_of_fails (evaluated : ∀ b ∈ before, b.Evaluates x)
    (fails : field.value.evaluate x = .error e) :
    evaluateData x (before ++ field :: after) = .error e := by
  obtain ⟨vars, done⟩ := exists_evaluateData_iff.mpr evaluated
  simp only [evaluateData] at done ⊢
  rw [List.mapM_append, List.mapM_cons, done, fails]
  rfl

/-- Data gives variables under the names of its fields. -/
theorem names_of_gives (gives : List.Forall₂ (Binding.Gives x) data vars) :
    vars.map Variable.name = data.map Binding.name := by
  induction gives with
  | nil => rfl
  | cons first _ ih => rw [List.map_cons, List.map_cons, ih, first.name]

/-- What distinct fields give can be handled. -/
theorem isUsable_of_gives (distinct : (data.map Binding.name).Nodup)
    (gives : List.Forall₂ (Binding.Gives x) data raised.data) : raised.IsUsable := by
  have tagged : ∀ v ∈ raised.data, v.scope = .eventData := by
    intro v member
    obtain ⟨field, -, given⟩ := exists_left_of_forall₂ gives member
    exact given.scope
  have names : (raised.data.map Variable.name).Nodup := names_of_gives gives ▸ distinct
  obtain ⟨m, made⟩ := Memory.exists_ofVariables .eventData names
  exact ⟨m, made, ((Memory.ofVariables_eq_ok_iff_list tagged).mp made).2⟩

/-! ## When an event is raised -/

theorem raiseEvent_of_nodup (distinct : (data.map Binding.name).Nodup) :
    raiseEvent x event data = (evaluateData x data).map (Event.mk event) := by
  rw [raiseEvent, firstRepeated?_of_nodup distinct]

theorem raiseEvent_of_unraisable (wrong : Unraisable x data e) :
    raiseEvent x event data = .error e := by
  cases wrong with
  | repeated split distinct earlier =>
    rw [raiseEvent, split, List.map_append, List.map_cons,
      firstRepeated?_of_repeats distinct earlier]
  | failing distinct split evaluated fails =>
    rw [raiseEvent_of_nodup distinct, split, evaluateData_of_fails evaluated fails]
    rfl

theorem raiseEvent_of_gives (distinct : (data.map Binding.name).Nodup) (named : raised.name = event)
    (gives : List.Forall₂ (Binding.Gives x) data raised.data) :
    raiseEvent x event data = .ok raised := by
  rw [raiseEvent_of_nodup distinct, evaluateData_eq_ok_iff.mpr gives, ← named]
  rfl

/-- Data can be raised, or something is wrong with it. -/
theorem raisable_or_unraisable (x : Extent) (data : List Binding) :
    ((data.map Binding.name).Nodup ∧ ∀ field ∈ data, field.Evaluates x) ∨
      ∃ e, Unraisable x data e := by
  rcases exists_first_failure (fun data => (data.map Binding.name).Nodup) .nil data with
    distinct | ⟨before, field, after, split, distinct, unfit⟩
  · rcases exists_first_failure (fun data => ∀ field ∈ data, field.Evaluates x) (by simp) data with
      evaluated | ⟨before, field, after, split, evaluated, unfit⟩
    · exact .inl ⟨distinct, evaluated⟩
    · cases fails : field.value.evaluate x with
      | error e => exact .inr ⟨e, .failing distinct split evaluated fails⟩
      | ok v =>
        refine absurd ?_ unfit
        intro b member
        rcases List.mem_append.mp member with inside | last
        · exact evaluated b inside
        · exact ⟨v, List.mem_singleton.mp last ▸ fails⟩
  · exact .inr ⟨_, .repeated split distinct (mem_of_not_nodup_concat distinct unfit)⟩

/-- Raising answers with what the fields give, or with what is wrong with them. -/
theorem raiseEvent_iff (x : Extent) (event : String) (data : List Binding) :
    (∀ raised, raiseEvent x event data = .ok raised ↔ (data.map Binding.name).Nodup ∧
      raised.name = event ∧ List.Forall₂ (Binding.Gives x) data raised.data) ∧
    ∀ e, raiseEvent x event data = .error e ↔ Unraisable x data e := by
  refine answer_iff_of_either ?_
    (fun raised ⟨distinct, named, gives⟩ => raiseEvent_of_gives distinct named gives)
    fun e => raiseEvent_of_unraisable
  rcases raisable_or_unraisable x data with ⟨distinct, evaluated⟩ | unraisable
  · obtain ⟨vars, done⟩ := exists_evaluateData_iff.mpr evaluated
    exact .inl ⟨⟨event, vars⟩, distinct, rfl, evaluateData_eq_ok_iff.mp done⟩
  · exact .inr unraisable

theorem exists_raiseEvent_iff : (∃ raised, raiseEvent x event data = .ok raised) ↔
    (data.map Binding.name).Nodup ∧ ∀ field ∈ data, field.Evaluates x := by
  constructor
  · rintro ⟨raised, done⟩
    obtain ⟨distinct, -, gives⟩ := ((raiseEvent_iff x event data).1 raised).mp done
    exact ⟨distinct, exists_evaluateData_iff.mp ⟨_, evaluateData_eq_ok_iff.mpr gives⟩⟩
  · rintro ⟨distinct, evaluated⟩
    obtain ⟨vars, done⟩ := exists_evaluateData_iff.mpr evaluated
    exact ⟨⟨event, vars⟩,
      raiseEvent_of_gives distinct rfl (evaluateData_eq_ok_iff.mp done)⟩

/-- An action that raises an event leaves the extent as it is. It raises the event exactly if the
fields of its data have distinct names and all their expressions have values; the data then lists
the fields in order, and a context can be made of it. Otherwise the error is that of the first field
that repeats a name, or, if there is none, of the first expression that fails. -/
theorem raised_data_is_usable (name : Option String) (event : String) (data : List Binding)
    (x : Extent) :
    let executed := (⟨name, .raise event data⟩ : Action).execute x
    executed.2 = x ∧
    ((∃ raised, executed.1 = .ok (.raised raised)) ↔
      (data.map Binding.name).Nodup ∧ ∀ field ∈ data, field.Evaluates x) ∧
    (∀ outcome, executed.1 = .ok outcome ↔ ∃ raised, outcome = .raised raised ∧
      (data.map Binding.name).Nodup ∧ raised.name = event ∧
      List.Forall₂ (Binding.Gives x) data raised.data ∧ raised.IsUsable) ∧
    ∀ e, executed.1 = .error e ↔ Unraisable x data e := by
  intro executed
  have answered : executed.1 = (raiseEvent x event data).map .raised := rfl
  have succeeds (outcome : Outcome) : executed.1 = .ok outcome ↔
      ∃ raised, outcome = .raised raised ∧ raiseEvent x event data = .ok raised := by
    rw [answered]
    cases raiseEvent x event data <;> simp [Except.map, eq_comm]
  refine ⟨rfl, ?_, fun outcome => ?_, fun e => ?_⟩
  · have raises : (∃ raised, raiseEvent x event data = .ok raised) ↔ _ := exists_raiseEvent_iff
    rw [← raises]
    simp [succeeds]
  · rw [succeeds]
    refine exists_congr fun raised => and_congr_right fun _ => ?_
    rw [(raiseEvent_iff x event data).1]
    constructor
    · rintro ⟨distinct, same, gives⟩
      exact ⟨distinct, same, gives, isUsable_of_gives distinct gives⟩
    · rintro ⟨distinct, same, gives, -⟩
      exact ⟨distinct, same, gives⟩
  · rw [answered, ← (raiseEvent_iff x event data).2]
    cases raiseEvent x event data <;> simp [Except.map]

/-- A name that repeats is reported even if an expression before it fails. -/
example : (Action.execute (((raise "done").withData "n" (.var "missing")).withData "n"
    (.literal .null)) (.ofMemories [])).1 = .error (.context (.variableExists "n" .eventData)) := by
  decide

end Action

end StateMachines
