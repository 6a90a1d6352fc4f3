import StateMachines.Proofs.Diagnosis
import StateMachines.Proofs.Extension

/-! # Locality

What is found of a machine, and what it is resolved to, depends only on the declarations of the
names that are met on the way along its parents. Two systems that agree on these are alike in that
machine, whatever else they declare and in whatever order. So the order of machines matters only to
the order of the results.
-/

namespace StateMachines

namespace SystemDecl

variable {s t : SystemDecl} {o : Options}

/-- Following parents from a name meets another one. The way may lead in a circle, or to a name that
is not declared. -/
inductive Meets (s : SystemDecl) : String → String → Prop
  | here (name : String) : Meets s name name
  | above {name parent other : String} {m : MachineDecl} (found : s.declared? name = some m)
      (child : m.parent = some parent) (further : Meets s parent other) : Meets s name other

/-- Two systems declare the same under every name that is met from a name, if anything. -/
def AgreesFrom (s t : SystemDecl) (name : String) : Prop :=
  ∀ other, s.Meets name other → s.declared? other = t.declared? other

theorem AgreesFrom.here {name : String} (agrees : s.AgreesFrom t name) :
    s.declared? name = t.declared? name := agrees name (.here name)

theorem AgreesFrom.above {name parent : String} {m : MachineDecl} (agrees : s.AgreesFrom t name)
    (found : s.declared? name = some m) (child : m.parent = some parent) :
    s.AgreesFrom t parent :=
  fun other further => agrees other (.above found child further)

/-- The search for ancestors looks at no names but those that are met. -/
theorem ancestorsFrom_congr {start : String} {left : Nat} {met : List String} {m : MachineDecl}
    (agrees : ∀ parent, m.parent = some parent → s.AgreesFrom t parent) :
    ancestorsFrom s.machineTable start left met m =
      ancestorsFrom t.machineTable start left met m := by
  induction left generalizing met m with
  | zero =>
    cases child : m.parent with
    | none => rw [ancestorsFrom, ancestorsFrom, child]
    | some parent =>
      rw [ancestorsFrom, ancestorsFrom, child]
      dsimp only
      rw [get?_machineTable, get?_machineTable, (agrees parent child).here]
  | succ left ih =>
    cases child : m.parent with
    | none => rw [ancestorsFrom, ancestorsFrom, child]
    | some parent =>
      rw [ancestorsFrom, ancestorsFrom, child]
      dsimp only
      rw [get?_machineTable, get?_machineTable, ← (agrees parent child).here]
      cases found : s.declared? parent with
      | none => rfl
      | some next =>
        dsimp only
        rw [ih fun above further => (agrees parent child).above found further]

section Agreement

variable {m : MachineDecl} (declared : s.declared? m.name = some m)
  (agrees : s.AgreesFrom t m.name)
include declared agrees

theorem ancestors_congr : m.ancestors s.machineTable o = m.ancestors t.machineTable o :=
  ancestorsFrom_congr fun _ child => agrees.above declared child

theorem lineage_congr {ancestors : List MachineDecl} :
    s.Lineage o m ancestors ↔ t.Lineage o m ancestors := by
  rw [← ancestors_eq_ok_iff, ← ancestors_eq_ok_iff, ancestors_congr declared agrees]

theorem check_congr (kind : Violation.Kind) :
    m.check s.machineTable o kind = m.check t.machineTable o kind := by
  rw [MachineDecl.check, MachineDecl.check, MachineDecl.candidate, MachineDecl.candidate,
    ancestors_congr declared agrees]

/-- A declaration is resolved to one machine in both systems. -/
theorem resolves_unique_of_agrees {first second : Machine} (one : s.Resolves o m first)
    (other : t.Resolves o m second) : first = second := by
  obtain ⟨ancestors, lineage, done⟩ := one
  exact Resolves.unique ⟨ancestors, (lineage_congr declared agrees).mp lineage, done⟩ other

end Agreement

/-! ## Systems that are alike in a machine -/

/-- Two systems are alike in a machine: the same violations are found of it, in the same order, and
if both are built, they have the same machine of that name, or both none. -/
structure Alike (o : Options) (s t : SystemDecl) (name : String) : Prop where
  violations : ((s.violations o).filter fun v => v.machine == name) =
    (t.violations o).filter fun v => v.machine == name
  machines : ∀ first second, s.build o = .ok first → t.build o = .ok second →
    first.machine name = second.machine name

/-- Where names are distinct, what is found of the machine of a name is what the rules find. -/
theorem filter_machine_violations (distinct : (s.machines.map MachineDecl.name).Nodup)
    (name : String) :
    ((s.violations o).filter fun v => v.machine == name) =
      Violation.Kind.ofMachine.flatMap fun kind =>
        (s.declared? name).elim [] fun m => m.check s.machineTable o kind := by
  rw [violations_eq_stages, duplicateMachines_eq_nil_iff.mpr distinct, List.nil_append,
    List.filter_flatMap]
  simp only [filter_machine_check]

section Distinct

variable (distinct : (s.machines.map MachineDecl.name).Nodup)
  (distinct' : (t.machines.map MachineDecl.name).Nodup)
include distinct distinct'

/-- Systems that agree on what is met from a machine are alike in it. -/
theorem AgreesFrom.alike {name : String} (agrees : s.AgreesFrom t name) : Alike o s t name := by
  cases declared : s.declared? name with
  | none =>
    have undeclared : t.declared? name = none := by rw [← agrees.here, declared]
    constructor
    · rw [filter_machine_violations distinct, filter_machine_violations distinct', declared,
        undeclared]
      rfl
    · intro first second built built'
      rw [machine_of_undeclared built declared, machine_of_undeclared built' undeclared]
  | some m =>
    obtain rfl := name_of_declared? declared
    have declared' : t.declared? m.name = some m := by rw [← agrees.here, declared]
    constructor
    · rw [filter_machine_violations distinct, filter_machine_violations distinct', declared,
        declared']
      simp only [Option.elim_some, check_congr declared agrees]
    · intro first second built built'
      obtain ⟨one, found, resolves⟩ := exists_machine built (mem_of_declared? declared)
      obtain ⟨other, found', resolves'⟩ := exists_machine built' (mem_of_declared? declared')
      rw [found, found', resolves_unique_of_agrees declared agrees resolves resolves']

theorem declared?_of_perm (perm : s.machines.Perm t.machines) (name : String) :
    s.declared? name = t.declared? name := by
  cases found : s.declared? name with
  | some m =>
    obtain rfl := name_of_declared? found
    exact (declared?_of_mem distinct' (perm.mem_iff.mp (mem_of_declared? found))).symm
  | none =>
    cases found' : t.declared? name with
    | none => rfl
    | some m =>
      obtain rfl := name_of_declared? found'
      rw [declared?_of_mem distinct (perm.mem_iff.mpr (mem_of_declared? found'))] at found
      contradiction

end Distinct

/-- Nothing is found at all if nothing is found of any name. -/
theorem violations_eq_nil_iff_filter : s.violations o = [] ↔
    ∀ name, ((s.violations o).filter fun v => v.machine == name) = [] := by
  constructor
  · intro none name
    rw [none]
    rfl
  · intro each
    refine List.eq_nil_iff_forall_not_mem.mpr fun v found => ?_
    simpa using List.filter_eq_nil_iff.mp (each v.machine) v found

/-- Systems that agree on the machines of a lineage are alike in its machine, whatever else they
declare. Putting the machines of a system in another order leaves it alike in every name, and built
or not. -/
theorem resolution_local (o : Options) (s t : SystemDecl)
    (distinct : (s.machines.map MachineDecl.name).Nodup)
    (distinct' : (t.machines.map MachineDecl.name).Nodup) :
    (∀ name, s.AgreesFrom t name → Alike o s t name) ∧
      (s.machines.Perm t.machines → (∀ name, Alike o s t name) ∧
        ((∃ system, s.build o = .ok system) ↔ ∃ system, t.build o = .ok system)) := by
  refine ⟨fun name agrees => agrees.alike distinct distinct', fun perm => ?_⟩
  have alike (name : String) : Alike o s t name :=
    AgreesFrom.alike distinct distinct' fun other _ =>
      declared?_of_perm distinct distinct' perm other
  refine ⟨alike, ?_⟩
  rw [exists_build_iff_violations, exists_build_iff_violations, violations_eq_nil_iff_filter,
    violations_eq_nil_iff_filter]
  simp only [(alike _).violations]

/-- The worker and its base the other way round, after a machine that has nothing to do with
them. -/
def strangerBesideWorker : SystemDecl :=
  { SystemDecl.ofName "crowd" with
    machines := (MachineDecl.ofName "stranger").withState (StateDecl.ofName "alone") ::
      workerOverBase.machines.reverse }

/-- From the worker only its base is met, and that has no parent. -/
theorem workerOverBase_agreesFrom : workerOverBase.AgreesFrom strangerBesideWorker "worker" := by
  intro other meets
  cases meets with
  | here => decide
  | above found child further =>
    obtain rfl := Option.some.inj found
    obtain rfl := Option.some.inj child
    cases further with
    | here => decide
    | above found child _ =>
      obtain rfl := Option.some.inj found
      contradiction

theorem resolution_local_worker :
    (workerOverBase.machines.map MachineDecl.name).Nodup ∧
      (strangerBesideWorker.machines.map MachineDecl.name).Nodup ∧
      workerOverBase.AgreesFrom strangerBesideWorker "worker" ∧
      Alike .standard workerOverBase strangerBesideWorker "worker" :=
  have distinct : (workerOverBase.machines.map MachineDecl.name).Nodup := by decide
  have distinct' : (strangerBesideWorker.machines.map MachineDecl.name).Nodup := by decide
  ⟨distinct, distinct', workerOverBase_agreesFrom,
    (resolution_local .standard workerOverBase strangerBesideWorker distinct
      distinct').1 "worker" workerOverBase_agreesFrom⟩

end SystemDecl

end StateMachines
