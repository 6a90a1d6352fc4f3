import Mathlib.Data.List.Nodup
import StateMachines.Inheritance
import StateMachines.Proofs.Table

/-! # Lineages

What it means to follow parents is said on the declarations alone: a relation between a machine
and the machines on its way to one without a parent. The search for ancestors answers exactly the
ways that repeat no name and are not too long. A name of a lineage means what the nearest machine
that declares it gives it last, and that is what the merged tables hold.
-/

namespace StateMachines

namespace SystemDecl

/-- The machine of a name; of two with one name the first counts. -/
def declared? (s : SystemDecl) (name : String) : Option MachineDecl :=
  s.machines.find? fun m => m.name == name

/-- Following parents from a machine leads through the given ones, nearest first, to one that has
no parent. -/
inductive Ancestry (s : SystemDecl) : MachineDecl → List MachineDecl → Prop
  | root {m : MachineDecl} (top : m.parent = none) : Ancestry s m []
  | step {m next : MachineDecl} {name : String} {rest : List MachineDecl}
      (child : m.parent = some name) (found : s.declared? name = some next)
      (further : Ancestry s next rest) : Ancestry s m (next :: rest)

/-- The ancestors of a machine, nearest first: no name is met twice, the machine's own included,
and there are not too many. -/
structure Lineage (s : SystemDecl) (o : Options) (m : MachineDecl) (ancestors : List MachineDecl) :
    Prop where
  leads : s.Ancestry m ancestors
  distinct : ((m :: ancestors).map MachineDecl.name).Nodup
  short : ancestors.length ≤ o.maxInheritanceDepth

variable {s : SystemDecl} {o : Options}

theorem mem_of_declared? {name : String} {m : MachineDecl} (found : s.declared? name = some m) :
    m ∈ s.machines := List.mem_of_find?_eq_some found

theorem name_of_declared? {name : String} {m : MachineDecl} (found : s.declared? name = some m) :
    m.name = name := by simpa using List.find?_some found

/-- Where names are distinct, every machine is the one of its name. -/
theorem declared?_of_mem (distinct : (s.machines.map MachineDecl.name).Nodup) {m : MachineDecl}
    (member : m ∈ s.machines) : s.declared? m.name = some m := by
  cases found : s.declared? m.name with
  | none => simpa using List.find?_eq_none.mp found m member
  | some other =>
    have same := List.inj_on_of_nodup_map distinct (mem_of_declared? found) member
      (name_of_declared? found)
    rw [same]

/-! ## The table of machines -/

private theorem foldl_addMachine_get? (machines : List MachineDecl) (t : Table MachineDecl)
    (name : String) :
    (machines.foldl addMachine t).get? name =
      (t.get? name).or (machines.find? fun m => m.name == name) := by
  induction machines generalizing t with
  | nil => simp
  | cons m rest ih =>
    rw [List.foldl_cons, ih, addMachine]
    by_cases hit : m.name = name
    · subst hit
      cases held : t.get? m.name with
      | none => simp [Table.contains_eq_isSome, held, Table.get?_set]
      | some first => simp [Table.contains_eq_isSome, held]
    · rw [List.find?_cons_of_neg (by simpa using hit)]
      split
      · rfl
      · rw [Table.get?_set, if_neg (Ne.symm hit)]

theorem get?_machineTable (s : SystemDecl) (name : String) :
    s.machineTable.get? name = s.declared? name := by
  rw [machineTable, foldl_addMachine_get?]
  rfl

theorem mem_values_machineTable {m : MachineDecl} :
    m ∈ s.machineTable.values ↔ s.declared? m.name = some m := by
  rw [Table.mem_values_iff]
  constructor
  · rintro ⟨name, held⟩
    rw [get?_machineTable] at held
    rw [name_of_declared? held, held]
  · intro found
    exact ⟨m.name, (get?_machineTable s m.name).trans found⟩

/-- Every machine of the table stands under its own name. -/
theorem map_name_values_machineTable (s : SystemDecl) :
    s.machineTable.values.map MachineDecl.name = s.machineTable.names := by
  rw [Table.values, List.map_map, Table.names]
  apply List.map_congr_left
  intro entry member
  have held := Table.get?_eq_some_iff.mpr member
  rw [get?_machineTable] at held
  exact name_of_declared? held

private theorem foldl_addMachine_names (machines : List MachineDecl) (t : Table MachineDecl) :
    (machines.foldl addMachine t).names =
      t.names ++ t.newNames (machines.map MachineDecl.name) := by
  induction machines generalizing t with
  | nil => simp [Table.newNames]
  | cons m rest ih =>
    have names : (addMachine t m).names = (t.set m.name m).names := by
      by_cases present : m.name ∈ t.names
      · simp [addMachine, Table.contains, present, Table.names_set_of_mem]
      · simp [addMachine, Table.contains, present]
    rw [List.foldl_cons, ih, List.map_cons, Table.newNames_cons t m.name m,
      Table.newNames_congr names, names]
    by_cases present : m.name ∈ t.names
    · simp [Table.names_set_of_mem _ present, present]
    · simp [Table.names_set_of_not_mem _ present, present]

/-- The table names each machine once, in order of first declaration. -/
theorem names_machineTable (s : SystemDecl) :
    s.machineTable.names = (s.machines.map MachineDecl.name).eraseDups := by
  rw [machineTable, foldl_addMachine_names, Table.newNames_empty, Table.names_empty,
    List.nil_append]

/-- Where names are distinct, the table holds the machines as they are declared. -/
theorem values_machineTable (distinct : (s.machines.map MachineDecl.name).Nodup) :
    s.machineTable.values = s.machines := by
  have table : ∀ (machines : List MachineDecl) (t : Table MachineDecl),
      (machines.map MachineDecl.name).Nodup → (∀ m ∈ machines, m.name ∉ t.names) →
      machines.foldl addMachine t = t.setAll (machines.map fun m => (m.name, m)) := by
    intro machines
    induction machines with
    | nil => intros; rfl
    | cons m rest ih =>
      intro t distinct fresh
      obtain ⟨apart, distinct⟩ := List.nodup_cons.mp distinct
      have absent : m.name ∉ t.names := fresh m (List.mem_cons_self ..)
      have added : addMachine t m = t.set m.name m := by simp [addMachine, Table.contains, absent]
      rw [List.foldl_cons, added, List.map_cons, Table.setAll_cons, ih _ distinct]
      intro other member
      rw [Table.names_set_of_not_mem _ absent, List.mem_append, List.mem_singleton, not_or]
      exact ⟨fresh other (List.mem_cons_of_mem _ member),
        fun same => apart (same ▸ List.mem_map_of_mem member)⟩
  have whole : s.machineTable = .ofList (s.machines.map fun m => (m.name, m)) :=
    table s.machines .empty distinct (by simp)
  rw [Table.values, whole, Table.entries_ofList (by simpa [Function.comp_def] using distinct)]
  simp [Function.comp_def]

/-! ## The search for ancestors -/

/-- There is one way along the parents. -/
theorem Ancestry.unique {m : MachineDecl} {first second : List MachineDecl}
    (one : s.Ancestry m first) (other : s.Ancestry m second) : first = second := by
  induction one generalizing second with
  | root top =>
    cases other with
    | root _ => rfl
    | step child _ _ => simp [top] at child
  | step child found _ ih =>
    cases other with
    | root top => simp [top] at child
    | step child' found' further' =>
      obtain rfl := Option.some.inj (child.symm.trans child')
      obtain rfl := Option.some.inj (found.symm.trans found')
      rw [ih further']

theorem ancestry_root_iff {m : MachineDecl} (top : m.parent = none)
    {ancestors : List MachineDecl} : s.Ancestry m ancestors ↔ ancestors = [] := by
  constructor
  · intro leads
    exact leads.unique (.root top)
  · rintro rfl
    exact .root top

theorem ancestry_step_iff {m : MachineDecl} {name : String} (child : m.parent = some name)
    {ancestors : List MachineDecl} :
    s.Ancestry m ancestors ↔ ∃ next rest, s.declared? name = some next ∧
      s.Ancestry next rest ∧ ancestors = next :: rest := by
  constructor
  · intro leads
    cases leads with
    | root top => simp [top] at child
    | step child' found further =>
      obtain rfl := Option.some.inj (child.symm.trans child')
      exact ⟨_, _, found, further, rfl⟩
  · rintro ⟨next, rest, found, further, rfl⟩
    exact .step child found further

section Search

variable {start : String} {left : Nat} {met : List String} {m : MachineDecl}
  {ancestors : List MachineDecl}

/-- A machine without a parent has no ancestors, however many steps are left. -/
private theorem ancestorsFrom_root (top : m.parent = none) :
    ancestorsFrom s.machineTable start left met m = .ok ancestors ↔
      s.Ancestry m ancestors ∧ (ancestors.map MachineDecl.name).Nodup ∧
        (∀ a ∈ ancestors, a.name ∉ met) ∧ ancestors.length ≤ left := by
  have answer : ancestorsFrom s.machineTable start left met m = .ok [] := by
    cases left <;> rw [ancestorsFrom, top]
  rw [answer, ancestry_root_iff top, Except.ok.injEq, eq_comm]
  constructor
  · rintro rfl
    simp
  · exact And.left

/-- Without steps left nothing is found above a machine that has a parent. -/
private theorem ancestorsFrom_zero {name : String} (child : m.parent = some name) :
    ancestorsFrom s.machineTable start 0 met m ≠ .ok ancestors := by
  rw [ancestorsFrom, child]
  dsimp only
  split
  · simp
  · split <;> simp

/-- A step goes to the parent, if that is declared and has not been met. -/
private theorem ancestorsFrom_step {name : String} (child : m.parent = some name) :
    ancestorsFrom s.machineTable start (left + 1) met m = .ok ancestors ↔
      ∃ next rest, s.declared? name = some next ∧ name ∉ met ∧
        ancestorsFrom s.machineTable start left (name :: met) next = .ok rest ∧
        ancestors = next :: rest := by
  rw [ancestorsFrom, child]
  dsimp only
  rw [get?_machineTable]
  cases s.declared? name with
  | none => simp
  | some next =>
    by_cases again : name ∈ met
    · simp [again]
    · cases further : ancestorsFrom s.machineTable start left (name :: met) next <;>
        simp [again, further, eq_comm]

/-- The search answers the way along the parents if it meets no name again and takes no more steps
than are left. -/
theorem ancestorsFrom_eq_ok_iff :
    ancestorsFrom s.machineTable start left met m = .ok ancestors ↔
      s.Ancestry m ancestors ∧ (ancestors.map MachineDecl.name).Nodup ∧
        (∀ a ∈ ancestors, a.name ∉ met) ∧ ancestors.length ≤ left := by
  induction left generalizing met m ancestors with
  | zero =>
    cases child : m.parent with
    | none => exact ancestorsFrom_root child
    | some name =>
      rw [ancestry_step_iff child, iff_false_left (ancestorsFrom_zero child)]
      rintro ⟨⟨next, rest, -, -, rfl⟩, -, -, short⟩
      simp at short
  | succ left ih =>
    cases child : m.parent with
    | none => exact ancestorsFrom_root child
    | some name =>
      rw [ancestorsFrom_step child, ancestry_step_iff child]
      constructor
      · rintro ⟨next, rest, found, fresh, searched, rfl⟩
        obtain ⟨further, distinct, unmet, short⟩ := ih.mp searched
        have named := name_of_declared? found
        refine ⟨⟨next, rest, found, further, rfl⟩, ?_, ?_, by simpa using short⟩
        · rw [List.map_cons, List.nodup_cons]
          refine ⟨?_, distinct⟩
          intro again
          obtain ⟨a, member, same⟩ := List.mem_map.mp again
          exact unmet a member (by simp [same, named])
        · intro a member
          rcases List.mem_cons.mp member with rfl | later
          · rwa [named]
          · intro again
            exact unmet a later (List.mem_cons_of_mem _ again)
      · rintro ⟨⟨next, rest, found, further, rfl⟩, distinct, unmet, short⟩
        have named := name_of_declared? found
        rw [List.map_cons, List.nodup_cons] at distinct
        have fresh : name ∉ met := named ▸ unmet next (List.mem_cons_self ..)
        refine ⟨next, rest, found, fresh, ih.mpr ⟨further, distinct.2, ?_, ?_⟩, rfl⟩
        · intro a member again
          rcases List.mem_cons.mp again with same | before
          · exact distinct.1 (named ▸ same ▸ List.mem_map_of_mem member)
          · exact unmet a (List.mem_cons_of_mem _ member) before
        · simpa using short

end Search

/-- The ancestors that are found are those of the lineage. -/
theorem ancestors_eq_ok_iff {m : MachineDecl} {ancestors : List MachineDecl} :
    m.ancestors s.machineTable o = .ok ancestors ↔ s.Lineage o m ancestors := by
  rw [MachineDecl.ancestors, ancestorsFrom_eq_ok_iff]
  constructor
  · rintro ⟨leads, distinct, unmet, short⟩
    refine ⟨leads, ?_, short⟩
    rw [List.map_cons, List.nodup_cons]
    refine ⟨?_, distinct⟩
    intro again
    obtain ⟨a, member, same⟩ := List.mem_map.mp again
    exact unmet a member (by simp [same])
  · rintro ⟨leads, distinct, short⟩
    rw [List.map_cons, List.nodup_cons] at distinct
    refine ⟨leads, distinct.2, fun a member same => distinct.1 ?_, short⟩
    rw [← List.mem_singleton.mp same]
    exact List.mem_map_of_mem member

/-- A machine has a candidate if it has a lineage. -/
theorem candidate_eq_ok_iff {m : MachineDecl} {c : Candidate} :
    m.candidate s.machineTable o = .ok c ↔
      ∃ ancestors, s.Lineage o m ancestors ∧ c = .ofLineage o m ancestors := by
  simp only [MachineDecl.candidate, ← ancestors_eq_ok_iff]
  cases m.ancestors s.machineTable o <;> simp [Except.map, eq_comm]

/-- The ancestors of a parent are those after it. -/
theorem Lineage.parent {m next : MachineDecl} {rest : List MachineDecl}
    (lineage : s.Lineage o m (next :: rest)) :
    s.declared? next.name = some next ∧ s.Lineage o next rest := by
  obtain ⟨leads, distinct, short⟩ := lineage
  cases leads with
  | step child found further =>
    refine ⟨by rw [name_of_declared? found]; exact found, further, ?_, ?_⟩
    · exact (List.nodup_cons.mp distinct).2
    · simp only [List.length_cons] at short
      omega

end SystemDecl

/-! ## What names mean in a lineage -/

/-- What the nearest machine that declares a name gives it last; the nearest machine is first. -/
def nearest? {α : Type} (declares : MachineDecl → List (String × α)) (lineage : List MachineDecl)
    (name : String) : Option α :=
  lineage.findSome? fun m => Table.lastUnder? (declares m) name

section Nearest

variable {α : Type} (declares : MachineDecl → List (String × α))

theorem nearest?_cons (m : MachineDecl) (ancestors : List MachineDecl) (name : String) :
    nearest? declares (m :: ancestors) name =
      (Table.lastUnder? (declares m) name).or (nearest? declares ancestors name) := by
  simp only [nearest?, List.findSome?_cons]
  cases Table.lastUnder? (declares m) name <;> rfl

/-- The entries of a lineage, root first, give a name last what it means. -/
theorem lastUnder?_flatMap_reverse (lineage : List MachineDecl) (name : String) :
    Table.lastUnder? (lineage.reverse.flatMap declares) name = nearest? declares lineage name := by
  induction lineage with
  | nil => rfl
  | cons m ancestors ih =>
    rw [List.reverse_cons, List.flatMap_append, Table.lastUnder?_append, ih, nearest?_cons]
    simp

theorem nearest?_isSome {lineage : List MachineDecl} {name : String} :
    (nearest? declares lineage name).isSome = true ↔
      ∃ m ∈ lineage, name ∈ (declares m).map Prod.fst := by
  simp only [nearest?, List.findSome?_isSome_iff, Table.lastUnder?_isSome]

/-- What a name means is an entry of one of the machines. -/
theorem mem_of_nearest? {lineage : List MachineDecl} {name : String} {value : α}
    (found : nearest? declares lineage name = some value) :
    ∃ m ∈ lineage, (name, value) ∈ declares m := by
  obtain ⟨m, member, last⟩ := List.exists_of_findSome?_eq_some found
  exact ⟨m, member, Table.mem_of_lastUnder? last⟩

end Nearest

end StateMachines
