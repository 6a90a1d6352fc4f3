import StateMachines.Proofs.Buildable
import StateMachines.Proofs.History
import StateMachines.Proofs.Inquiry

/-! # Contexts that are initialized

The initial values that are declared for a context are evaluated one after the other, each in the
context of those before it. Creating a variable keeps what can be read, and an expression that has a
value has read all it asked for; so the value is still right in the finished context, which solves
the declarations as equations. Declared names are distinct after merging, so no variable is there
before it is created: nothing can go wrong but an initial value, and of a context nothing but a name
that is not there.
-/

namespace StateMachines

namespace Memory

variable {m n last : Memory} {name : String} {initial : Expr} {value : Value} {e : EvaluationError}
  {declared before after : List (String × Expr)}

/-! ## One after the other -/

/-- Evaluating initial values one after the other, and creating a variable of each, leads from one
context to another. -/
inductive Initializes : Memory → List (String × Expr) → Memory → Prop
  | done (m : Memory) : Initializes m [] m
  | next {m n last : Memory} {name : String} {initial : Expr} {value : Value}
      {rest : List (String × Expr)} (evaluated : initial.evaluate (.ofMemories [m]) = .ok value)
      (created : m.create name value = .ok n) (further : Initializes n rest last) :
      Initializes m ((name, initial) :: rest) last

/-- The first initial value that fails, and its error: those before it lead to a context in which it
has no value. -/
def FailsToInitialize (m : Memory) (declared : List (String × Expr)) (e : EvaluationError) : Prop :=
  ∃ before name initial after n, declared = before ++ (name, initial) :: after ∧
    m.Initializes before n ∧ initial.evaluate (.ofMemories [n]) = .error e

/-- What is declared holds as equations: the context has the declared names in order, and each of
them has the value that its initial value has in this very context. -/
structure Solves (m : Memory) (declared : List (String × Expr)) : Prop where
  names : m.vars.names = declared.map Prod.fst
  equations : ∀ name initial, (name, initial) ∈ declared →
    ∃ value, m.get name = .ok value ∧ initial.evaluate (.ofMemories [m]) = .ok value

namespace Initializes

theorem append (first : m.Initializes before n) (second : n.Initializes after last) :
    m.Initializes (before ++ after) last := by
  induction first with
  | done _ => exact second
  | next evaluated created _ ih => exact .next evaluated created (ih second)

theorem scope (initializes : m.Initializes declared last) : last.scope = m.scope := by
  induction initializes with
  | done _ => rfl
  | next _ created _ ih => rw [ih, (create_eq_ok_iff.mp created).2.1]

theorem names (initializes : m.Initializes declared last) :
    last.vars.names = m.vars.names ++ declared.map Prod.fst := by
  induction initializes with
  | done _ => simp
  | next _ created _ ih =>
    obtain ⟨-, -, entries⟩ := create_eq_ok_iff.mp created
    rw [ih, Table.names, entries]
    simp [Table.names]

end Initializes

/-! ## The finished context -/

/-- What can be read in one context reads the same in another. -/
def StaysIn (m n : Memory) : Prop := ∀ name value, m.get name = .ok value → n.get name = .ok value

theorem StaysIn.trans (first : m.StaysIn n) (second : n.StaysIn last) : m.StaysIn last :=
  fun name value found => second name value (first name value found)

theorem get?_of_create (created : m.create name value = .ok n) (other : String) :
    n.vars.get? other = if other = name then some value else m.vars.get? other :=
  have changed : m.change (.create name value) = .ok n := created
  get?_of_change changed other

theorem staysIn_of_create (created : m.create name value = .ok n) : m.StaysIn n := by
  intro other held found
  have new : name ∉ m.vars.names := (create_eq_ok_iff.mp created).1
  rw [get_eq_ok_iff] at found
  have apart : other ≠ name := by
    rintro rfl
    exact new ((Table.get?_isSome ..).mp (by rw [found]; rfl))
  rw [get_eq_ok_iff, get?_of_create created, if_neg apart, found]

theorem Initializes.staysIn (initializes : m.Initializes declared last) : m.StaysIn last := by
  induction initializes with
  | done _ => exact fun _ _ found => found
  | next _ created _ ih => exact (staysIn_of_create created).trans ih

@[simp] theorem get_ofMemories_singleton (m : Memory) : (Extent.ofMemories [m]).get = m.get := by
  funext name
  have asked : (Context.memory m).get name = m.get name := rfl
  simp only [Extent.get, Extent.ofMemories, List.map_cons, List.map_nil, Extent.getIn, asked, get]
  cases m.vars.get? name <;> rfl

/-- A value outlasts the creation of other variables. -/
theorem evaluate_of_staysIn (stays : m.StaysIn n)
    (evaluated : initial.evaluate (.ofMemories [m]) = .ok value) :
    initial.evaluate (.ofMemories [n]) = .ok value := by
  simp only [Expr.evaluate, get_ofMemories_singleton, ← Expr.answer_inquiry] at evaluated ⊢
  rw [← evaluated]
  refine (Inquiry.answer_congr fun name asked => ?_).1
  obtain ⟨held, found⟩ := Inquiry.exists_of_answer evaluated name asked
  rw [found, stays name held found]

/-- Every initial value still has its value when all variables are there. -/
theorem Initializes.equations (initializes : m.Initializes declared last) :
    ∀ name initial, (name, initial) ∈ declared →
      ∃ value, last.get name = .ok value ∧ initial.evaluate (.ofMemories [last]) = .ok value := by
  induction initializes with
  | done _ => simp
  | @next m n last name initial value rest evaluated created further ih =>
    intro other otherInitial member
    rcases List.mem_cons.mp member with same | later
    · obtain ⟨rfl, rfl⟩ := Prod.mk.inj same
      have held : n.get other = .ok value := by
        rw [get_eq_ok_iff, get?_of_create created, if_pos rfl]
      have stays := (staysIn_of_create created).trans further.staysIn
      exact ⟨value, further.staysIn _ _ held, evaluate_of_staysIn stays evaluated⟩
    · exact ih other otherInitial later

theorem Initializes.solves {scope : Scope} (initializes : (empty scope).Initializes declared last) :
    last.Solves declared :=
  ⟨by rw [initializes.names]; rfl, initializes.equations⟩

/-! ## Nothing else goes wrong -/

/-- Initial values under new and distinct names initialize a context, or one of them fails. -/
theorem initializes_or_fails (distinct : (declared.map Prod.fst).Nodup)
    (fresh : ∀ name ∈ declared.map Prod.fst, name ∉ m.vars.names) :
    (∃ last, m.Initializes declared last) ∨ ∃ e, m.FailsToInitialize declared e := by
  rcases exists_first_failure (fun declared => ∃ last, m.Initializes declared last) ⟨m, .done m⟩
      declared with whole | ⟨before, ⟨name, initial⟩, after, rfl, ⟨n, first⟩, stops⟩
  · exact .inl whole
  · cases evaluated : initial.evaluate (.ofMemories [n]) with
    | error e => exact .inr ⟨e, before, name, initial, after, n, rfl, first, evaluated⟩
    | ok value =>
      have new : name ∉ n.vars.names := by
        rw [List.map_append, List.map_cons, List.nodup_append] at distinct
        rw [first.names, List.mem_append, not_or]
        exact ⟨fresh name (by simp), fun earlier => distinct.2.2 name earlier name (by simp) rfl⟩
      cases created : n.create name value with
      | error reason => exact absurd (create_eq_error_iff.mp created).1 new
      | ok next => exact absurd ⟨next, first.append (.next evaluated created (.done next))⟩ stops

/-- Of a context nothing is reported but a name that is not there. -/
theorem unknownVariable_of_fails {e : ContextError}
    (failed : initial.evaluate (.ofMemories [m]) = .error (.context e)) :
    ∃ name ∉ m.vars.names, e = .unknownVariable name ∧ name ∈ initial.inquiry.names m.get := by
  rw [Expr.evaluate, get_ofMemories_singleton, ← Expr.answer_inquiry] at failed
  obtain ⟨name, asked, unread⟩ := initial.blames_inquiry m.get e failed
  obtain ⟨absent, same⟩ := get_eq_error_iff.mp unread
  exact ⟨name, absent, same, asked⟩

end Memory

/-! ## Tables of initial values -/

/-- The names that the machines of a lineage declare, from the root on, with repetitions. -/
def declaredNames {α : Type} (declares : MachineDecl → List (String × α))
    (lineage : List MachineDecl) : List String :=
  (lineage.reverse.flatMap declares).map Prod.fst

/-- A table is merged from what a lineage declares, nearest machine first: its names stand by first
declaration from the root on, and each means what the nearest machine that declares it says last. -/
structure Table.MergedFrom {α : Type} (t : Table α) (declares : MachineDecl → List (String × α))
    (lineage : List MachineDecl) : Prop where
  names : FirstOccurrences (declaredNames declares lineage) t.names
  held : ∀ name, t.get? name = nearest? declares lineage name

theorem Candidate.mergedFrom_tableOf {α : Type} (declares : MachineDecl → List (String × α))
    (lineage : List MachineDecl) : (tableOf declares lineage).MergedFrom declares lineage :=
  ⟨Table.firstOccurrences_ofList _, get?_tableOf declares lineage⟩

/-- The tables from which a machine initializes its contexts are those of its lineage. -/
theorem Machine.contexts_of_resolve {o : Options} {m : MachineDecl} {ancestors : List MachineDecl}
    {machine : Machine} (resolved : (Candidate.ofLineage o m ancestors).resolve = .ok machine) :
    machine.localContext = Candidate.tableOf MachineDecl.localBindings (m :: ancestors) ∧
      machine.persistentContext =
        Candidate.tableOf MachineDecl.persistentBindings (m :: ancestors) := by
  obtain ⟨_, _, rfl⟩ := Candidate.resolve_eq_ok_iff.mp resolved
  exact ⟨Candidate.localContext_ofLineage (o := o), Candidate.persistentContext_ofLineage (o := o)⟩

/-- What comes of initializing a context from a table of initial values: a context that solves the
declarations, or the error of the first initial value that fails. -/
structure Initialization (declared : Table Expr) (scope : Scope)
    (answer : Except EvaluationError Memory) : Prop where
  solves : ∀ m, answer = .ok m → m.scope = scope ∧ m.Solves declared.entries
  succeeds : ∀ m, answer = .ok m ↔ (Memory.empty scope).Initializes declared.entries m
  fails : ∀ e, answer = .error e ↔ (Memory.empty scope).FailsToInitialize declared.entries e
  unknown : ∀ e, answer = .error (.context e) → ∃ name, e = .unknownVariable name

namespace Machine

variable {m last : Memory} {declared : List (String × Expr)} {e : EvaluationError}

theorem declareAll_append (m : Memory) (before after : List (String × Expr)) :
    declareAll m (before ++ after) = declareAll m before >>= fun n => declareAll n after := by
  induction before generalizing m with
  | nil => rfl
  | cons entry rest ih => simp only [List.cons_append, declareAll, ih, bind_assoc]

theorem declareAll_of_initializes (initializes : m.Initializes declared last) :
    declareAll m declared = .ok last := by
  induction initializes with
  | done _ => rfl
  | next evaluated created _ ih =>
    rw [declareAll, evaluated, ← ih]
    change (Except.mapError _ _ >>= _) = _
    rw [created]
    rfl

theorem declareAll_of_fails (fails : m.FailsToInitialize declared e) :
    declareAll m declared = .error e := by
  obtain ⟨before, name, initial, after, n, rfl, first, failed⟩ := fails
  rw [declareAll_append, declareAll_of_initializes first]
  change declareAll n ((name, initial) :: after) = _
  rw [declareAll, failed]
  rfl

/-- Whatever the initial values of a table, evaluating them succeeds or fails as told. -/
theorem initialization (declared : Table Expr) (scope : Scope) :
    Initialization declared scope (declareAll (.empty scope) declared.entries) := by
  have either := Memory.initializes_or_fails (m := .empty scope) declared.distinct
    fun name _ => List.not_mem_nil
  obtain ⟨succeeds, fails⟩ := answer_iff_of_either either (fun _ => declareAll_of_initializes)
    fun _ => declareAll_of_fails
  refine ⟨fun m done => ?_, succeeds, fails, fun e failed => ?_⟩
  · have initializes := (succeeds m).mp done
    exact ⟨initializes.scope, initializes.solves⟩
  · obtain ⟨_, _, _, _, _, _, _, unread⟩ := (fails _).mp failed
    obtain ⟨name, _, same, _⟩ := Memory.unknownVariable_of_fails unread
    exact ⟨name, same⟩

end Machine

namespace SystemDecl

/-- In a built system the contexts of a machine are initialized from what its lineage declares,
merged. A context that is created solves these declarations; creating one fails exactly if some
initial value does in the context of those before it, and no variable is ever there before it is
created. -/
theorem initialized_contexts_solve (s : SystemDecl) (o : Options) {system : System}
    (built : s.build o = .ok system) {machine : Machine}
    (member : machine ∈ system.machines.values) :
    ∃ m ∈ s.machines, ∃ ancestors, m.name = machine.name ∧ s.Ancestry m ancestors ∧
      machine.localContext.MergedFrom MachineDecl.localBindings (m :: ancestors) ∧
      machine.persistentContext.MergedFrom MachineDecl.persistentBindings (m :: ancestors) ∧
      Initialization machine.localContext .machineLocal machine.createLocal ∧
      Initialization machine.persistentContext .persistent machine.createPersistent := by
  obtain ⟨m, declared, resolves⟩ := exists_resolves built member
  have named := resolves.name
  obtain ⟨ancestors, lineage, resolved⟩ := resolves
  obtain ⟨locals, persistents⟩ := Machine.contexts_of_resolve resolved
  refine ⟨m, declared, ancestors, named.symm, lineage.leads, ?_, ?_, Machine.initialization ..,
    Machine.initialization ..⟩
  · exact locals ▸ Candidate.mergedFrom_tableOf ..
  · exact persistents ▸ Candidate.mergedFrom_tableOf ..

/-- A counter that starts elsewhere than its base. What the base says of its next value reads the
new start, and what is to be kept reads a variable of the other context. -/
def counterOverBase : SystemDecl :=
  let base := ((MachineDecl.ofName "base").withLocal "count" (.literal (.integer 1))).withLocal
    "next" (.binary .add (.var "count") (.literal (.integer 1)))
  let counter := ((((MachineDecl.ofName "counter").extending "base").withLocal "limit"
    (.binary .add (.var "next") (.var "count"))).withLocal "count" (.literal (.integer 10)))
  ⟨"system", [base, counter.withPersistent "kept" (.var "count")]⟩

/-- What becomes of the contexts of the counter. -/
def CountsOn (machine : Machine) : Prop :=
  machine.name = "counter" ∧ machine.createLocal = .ok ⟨.machineLocal, .ofList
    [("count", .integer 10), ("next", .integer 11), ("limit", .integer 21)]⟩ ∧
  machine.createPersistent = .error (.context (.unknownVariable "count"))

instance (machine : Machine) : Decidable (CountsOn machine) :=
  inferInstanceAs (Decidable (_ ∧ _ ∧ _))

theorem counterOverBase_builds : ∃ system, counterOverBase.build .standard = .ok system ∧
    ∃ machine ∈ system.machines.values, CountsOn machine :=
  exists_built (by decide +kernel)

theorem initialized_contexts_solve_counter :
    ∃ system, counterOverBase.build .standard = .ok system ∧
      ∃ machine ∈ system.machines.values, CountsOn machine ∧
        ∃ m ∈ counterOverBase.machines, ∃ ancestors, m.name = machine.name ∧
          counterOverBase.Ancestry m ancestors ∧
          machine.localContext.MergedFrom MachineDecl.localBindings (m :: ancestors) ∧
          machine.persistentContext.MergedFrom MachineDecl.persistentBindings (m :: ancestors) ∧
          Initialization machine.localContext .machineLocal machine.createLocal ∧
          Initialization machine.persistentContext .persistent machine.createPersistent := by
  obtain ⟨system, built, machine, member, counts⟩ := counterOverBase_builds
  exact ⟨system, built, machine, member, counts,
    initialized_contexts_solve counterOverBase .standard built member⟩

end SystemDecl

end StateMachines
