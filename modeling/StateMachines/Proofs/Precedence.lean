import StateMachines.Proofs.Initialization

/-! # Initial values that read what is declared before

An initial value may read the names that are declared before it. They are declared in the order of
each machine, but evaluated in merged order: there a declaration that replaces an inherited one
takes its place, and only new names come last. So it is not enough for every machine to read
backward. A name that is declared once stands behind all that its initial value reads; but one that
is declared again stands where it was first declared, and may read only what comes before that.
-/

namespace StateMachines

/-- Whatever is read of them, an expression asks for no other names than the allowed ones. -/
def Expr.ReadsOnly (e : Expr) (allowed : String → Prop) : Prop :=
  ∀ read, ∀ name ∈ e.inquiry.names read, allowed name

namespace Expr

variable {allowed : String → Prop}

theorem readsOnly_literal {value : Value} : (literal value).ReadsOnly allowed := nofun

theorem readsOnly_var {name : String} (may : allowed name) : (var name).ReadsOnly allowed := by
  intro read other asked
  rw [names_inquiry_var, List.mem_singleton] at asked
  exact asked ▸ may

end Expr

/-- Initial values in order read only what is known or declared before them. -/
def ReadInOrder (known : List String) : List (String × Expr) → Prop
  | [] => True
  | (name, initial) :: rest =>
    initial.ReadsOnly (· ∈ known) ∧ ReadInOrder (known ++ [name]) rest

/-- In every machine of a lineage, nearest first, initial values read only what the machine declares
before them, or what a more distant ancestor declares. -/
def ReadsBackward (declares : MachineDecl → List (String × Expr)) : List MachineDecl → Prop
  | [] => True
  | m :: ancestors =>
    ReadInOrder (declaredNames declares ancestors) (declares m) ∧ ReadsBackward declares ancestors

/-- Where a name is declared more than once in a lineage, the initial value that is in force reads
only names that are first declared before this one is. -/
def OverridesReadEarlier (declares : MachineDecl → List (String × Expr))
    (lineage : List MachineDecl) : Prop :=
  ∀ name initial, nearest? declares lineage name = some initial →
    1 < (declaredNames declares lineage).count name →
    initial.ReadsOnly fun earlier => (declaredNames declares lineage).idxOf earlier <
      (declaredNames declares lineage).idxOf name

section Orders

variable {declares : MachineDecl → List (String × Expr)} {lineage : List MachineDecl}
  {known : List String} {before after : List (String × Expr)} {name : String} {initial : Expr}

theorem readInOrder_append : ReadInOrder known (before ++ after) ↔
    ReadInOrder known before ∧ ReadInOrder (known ++ before.map Prod.fst) after := by
  induction before generalizing known with
  | nil => simp [ReadInOrder]
  | cons entry rest ih => simp [ReadInOrder, ih, and_assoc]

/-- Machines that read backward read backward along the whole lineage. -/
theorem ReadsBackward.readInOrder (backward : ReadsBackward declares lineage) :
    ReadInOrder [] (lineage.reverse.flatMap declares) := by
  induction lineage with
  | nil => exact trivial
  | cons m ancestors ih =>
    obtain ⟨own, further⟩ := backward
    rw [List.reverse_cons, List.flatMap_append, List.flatMap_singleton, readInOrder_append]
    exact ⟨ih further, own⟩

/-- What is in force reads only what is first declared before its own name is. -/
theorem ReadsBackward.reads_earlier (backward : ReadsBackward declares lineage)
    (overrides : OverridesReadEarlier declares lineage)
    (held : nearest? declares lineage name = some initial) :
    initial.ReadsOnly fun earlier => (declaredNames declares lineage).idxOf earlier <
      (declaredNames declares lineage).idxOf name := by
  by_cases again : 1 < (declaredNames declares lineage).count name
  · exact overrides name initial held again
  -- A name that is declared once stands where its initial value was checked.
  · have member : (name, initial) ∈ lineage.reverse.flatMap declares :=
      Table.mem_of_lastUnder? ((lastUnder?_flatMap_reverse declares lineage name).trans held)
    obtain ⟨before, after, split⟩ := List.append_of_mem member
    have ordered := backward.readInOrder
    rw [split, readInOrder_append, List.nil_append] at ordered
    rw [declaredNames, split, List.map_append, List.map_cons] at again ⊢
    have once : name ∉ before.map Prod.fst := by
      intro earlier
      have counted := List.count_pos_iff.mpr earlier
      rw [List.count_append, List.count_cons_self] at again
      omega
    intro read earlier asked
    have inside : earlier ∈ before.map Prod.fst := ordered.2.1 read earlier asked
    rw [List.idxOf_append_of_mem inside, List.idxOf_append_of_notMem once, List.idxOf_cons_self,
      Nat.add_zero]
    exact List.idxOf_lt_length_iff.mpr inside

end Orders

/-- If every initial value of a table reads only what is first declared before its name, then no
name is unknown when it is read. -/
theorem Initialization.ne_unknownVariable {declared : Table Expr} {scope : Scope}
    {answer : Except EvaluationError Memory} {names : List String}
    (initialization : Initialization declared scope answer)
    (firsts : FirstOccurrences names declared.names)
    (reads : ∀ name initial, declared.get? name = some initial →
      initial.ReadsOnly fun earlier => names.idxOf earlier < names.idxOf name)
    (name : String) : answer ≠ .error (.context (.unknownVariable name)) := by
  intro failed
  obtain ⟨before, reader, initial, after, m, split, initialized, unread⟩ :=
    (initialization.fails _).mp failed
  obtain ⟨missing, absent, -, asked⟩ := Memory.unknownVariable_of_fails unread
  have held : declared.get? reader = some initial :=
    Table.get?_eq_some_iff.mpr (split ▸ List.mem_append_right _ (List.mem_cons_self ..))
  rw [Table.names, split, List.map_append, List.map_cons] at firsts
  have there := firsts.mem_before (reads reader initial held _ missing asked)
  rw [initialized.names] at absent
  exact absent (List.mem_append_right _ there)

namespace SystemDecl

/-- In a built system, if in the lineage of a machine every local initial value reads only what its
own machine declares before it or a more distant ancestor declares, and every override that is in
force reads only what is first declared before its name, then no name is unknown when the local
context is created. -/
theorem createLocal_reads_known (s : SystemDecl) (o : Options) {system : System}
    (built : s.build o = .ok system) {machine : Machine} (member : machine ∈ system.machines.values)
    {m : MachineDecl} (declared : m ∈ s.machines) (named : m.name = machine.name)
    {ancestors : List MachineDecl} (leads : s.Ancestry m ancestors)
    (backward : ReadsBackward MachineDecl.localBindings (m :: ancestors))
    (overrides : OverridesReadEarlier MachineDecl.localBindings (m :: ancestors)) (name : String) :
    machine.createLocal ≠ .error (.context (.unknownVariable name)) := by
  obtain ⟨m', declared', resolves⟩ := exists_resolves built member
  have distinct := (buildable_of_build built).distinct
  obtain rfl : m' = m := List.inj_on_of_nodup_map distinct declared' declared
    (resolves.name.symm.trans named.symm)
  obtain ⟨ancestors', lineage, resolved⟩ := resolves
  obtain rfl := lineage.leads.unique leads
  have merged := Candidate.mergedFrom_tableOf MachineDecl.localBindings (m' :: ancestors')
  rw [← (Machine.contexts_of_resolve resolved).1] at merged
  refine (Machine.initialization ..).ne_unknownVariable merged.names ?_ name
  intro reader initial held
  exact backward.reads_earlier overrides ((merged.held reader).symm.trans held)

/-- A machine with two bounds. -/
def gaugeBase : MachineDecl :=
  ((MachineDecl.ofName "base").withLocal "low" (.literal (.integer 1))).withLocal "high"
    (.literal (.integer 2))

/-- A gauge that has a step, and then replaces one of the bounds. -/
def gaugeWith (bound : String) (initial : Expr) : MachineDecl :=
  (((MachineDecl.ofName "gauge").extending "base").withLocal "step"
    (.literal (.integer 3))).withLocal bound initial

/-- The gauge and its base. -/
def gaugeOverBase (bound : String) (initial : Expr) : SystemDecl :=
  ⟨"system", [gaugeBase, gaugeWith bound initial]⟩

theorem gaugeOverBase_ancestry (bound : String) (initial : Expr) :
    (gaugeOverBase bound initial).Ancestry (gaugeWith bound initial) [gaugeBase] :=
  .step rfl rfl (.root rfl)

/-- The gauge reads backward if its bound reads nothing but the step and the bounds of the base. -/
theorem gaugeOverBase_readsBackward {bound : String} {initial : Expr}
    (reads : initial.ReadsOnly (· ∈ ["low", "high", "step"])) :
    ReadsBackward MachineDecl.localBindings [gaugeWith bound initial, gaugeBase] :=
  ⟨⟨Expr.readsOnly_literal, reads, trivial⟩,
    ⟨Expr.readsOnly_literal, Expr.readsOnly_literal, trivial⟩, trivial⟩

theorem gaugeOverBase_builds : ∃ system,
    (gaugeOverBase "high" (.var "low")).build .standard = .ok system ∧
      ∃ machine ∈ system.machines.values, machine.name = "gauge" :=
  exists_built (by decide +kernel)

/-- An upper bound that reads the lower one, which comes first. -/
theorem createLocal_reads_known_gauge : ∃ system,
    (gaugeOverBase "high" (.var "low")).build .standard = .ok system ∧
      ∃ machine ∈ system.machines.values, machine.name = "gauge" ∧
        gaugeWith "high" (.var "low") ∈ (gaugeOverBase "high" (.var "low")).machines ∧
        (gaugeOverBase "high" (.var "low")).Ancestry (gaugeWith "high" (.var "low")) [gaugeBase] ∧
        ReadsBackward MachineDecl.localBindings [gaugeWith "high" (.var "low"), gaugeBase] ∧
        OverridesReadEarlier MachineDecl.localBindings
          [gaugeWith "high" (.var "low"), gaugeBase] ∧
        ∀ name, machine.createLocal ≠ .error (.context (.unknownVariable name)) := by
  obtain ⟨system, built, machine, member, named⟩ := gaugeOverBase_builds
  have declared : gaugeWith "high" (.var "low") ∈ (gaugeOverBase "high" (.var "low")).machines :=
    List.mem_cons_of_mem _ (List.mem_cons_self ..)
  have leads := gaugeOverBase_ancestry "high" (.var "low")
  have backward : ReadsBackward MachineDecl.localBindings
      [gaugeWith "high" (.var "low"), gaugeBase] :=
    gaugeOverBase_readsBackward (Expr.readsOnly_var (by decide))
  have overrides : OverridesReadEarlier MachineDecl.localBindings
      [gaugeWith "high" (.var "low"), gaugeBase] := by
    intro name initial held again
    have names : declaredNames MachineDecl.localBindings
        [gaugeWith "high" (.var "low"), gaugeBase] = ["low", "high", "step", "high"] := rfl
    rw [names] at again ⊢
    have occurs : name ∈ ["low", "high", "step", "high"] := List.count_pos_iff.mp (by omega)
    have twice : ∀ other ∈ ["low", "high", "step", "high"],
        1 < List.count other ["low", "high", "step", "high"] → other = "high" := by decide
    obtain rfl := twice name occurs again
    obtain rfl : Expr.var "low" = initial := Option.some.inj held
    exact Expr.readsOnly_var (by decide)
  exact ⟨system, built, machine, member, named, declared, leads, backward, overrides,
    createLocal_reads_known _ .standard built member declared named.symm leads backward overrides⟩

/-- A lower bound that reads the step is evaluated in the place of the inherited one, where there is
no step yet. -/
theorem gauge_reads_unknown : ∃ system,
    (gaugeOverBase "low" (.var "step")).build .standard = .ok system ∧
      ∃ machine ∈ system.machines.values, machine.name = "gauge" ∧
        gaugeWith "low" (.var "step") ∈ (gaugeOverBase "low" (.var "step")).machines ∧
        (gaugeOverBase "low" (.var "step")).Ancestry (gaugeWith "low" (.var "step")) [gaugeBase] ∧
        ReadsBackward MachineDecl.localBindings [gaugeWith "low" (.var "step"), gaugeBase] ∧
        machine.createLocal = .error (.context (.unknownVariable "step")) := by
  have builds : ∃ system, (gaugeOverBase "low" (.var "step")).build .standard = .ok system ∧
      ∃ machine ∈ system.machines.values, machine.name = "gauge" ∧
        machine.createLocal = .error (.context (.unknownVariable "step")) :=
    exists_built (by decide +kernel)
  obtain ⟨system, built, machine, member, named, failed⟩ := builds
  exact ⟨system, built, machine, member, named, List.mem_cons_of_mem _ (List.mem_cons_self ..),
    gaugeOverBase_ancestry .., gaugeOverBase_readsBackward (Expr.readsOnly_var (by decide)), failed⟩

end SystemDecl

end StateMachines
