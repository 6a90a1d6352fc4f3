import Mathlib.Data.List.Perm.Subperm
import StateMachines.Proofs.Refusal

/-! # The way up to the ancestors

The search for ancestors follows parents from name to name. Either it arrives at a machine without a
parent, or a name stops it: one that is not declared, or has been met on the way, or lies beyond the
limit. Which name stops it is said on the declarations; that the search ends with that name, or at
the top, is an induction on the steps that are left. It ends without a limit too, because every step
leads to a machine that has not been met.
-/

namespace StateMachines

namespace SystemDecl

/-- Following parents from a machine leads through the given ones, nearest first, to the last. -/
inductive Climbs (s : SystemDecl) : MachineDecl → List MachineDecl → MachineDecl → Prop
  | here (m : MachineDecl) : Climbs s m [] m
  | step {m next last : MachineDecl} {name : String} {rest : List MachineDecl}
      (child : m.parent = some name) (found : s.declared? name = some next)
      (further : Climbs s next rest last) : Climbs s m (next :: rest) last

/-- Why the step to a name is not taken, after some steps on which others were met. Of several
reasons the first counts. -/
inductive Obstacle (s : SystemDecl) (met : List String) (steps limit : Nat) (name : String) : Prop
  | undeclared (missing : s.declared? name = none)
  | repeated {next : MachineDecl} (found : s.declared? name = some next) (again : name ∈ met)
  | tooFar {next : MachineDecl} (found : s.declared? name = some next) (fresh : name ∉ met)
      (spent : steps = limit)

/-- The way up from a machine is free for some steps, and then a name stops it: all machines on it
are declared and distinct, the one at the start included, and there are not too many. -/
structure StopsAt (s : SystemDecl) (o : Options) (m : MachineDecl) (path : List MachineDecl)
    (name : String) : Prop where
  climbs : ∃ last, s.Climbs m path last ∧ last.parent = some name
  distinct : ((m :: path).map MachineDecl.name).Nodup
  short : path.length ≤ o.maxInheritanceDepth
  obstacle : s.Obstacle ((m :: path).map MachineDecl.name) path.length o.maxInheritanceDepth name

variable {s : SystemDecl} {o : Options} {m next last : MachineDecl} {name subject start : String}
  {path : List MachineDecl} {met : List String} {left limit steps : Nat} {v : Violation}

/-! ## Climbing -/

/-- Every machine on the way is declared under its name. -/
theorem Climbs.declared (climbs : s.Climbs m path last) :
    ∀ a ∈ path, s.declared? a.name = some a := by
  induction climbs with
  | here _ => simp
  | step _ found _ ih =>
    exact List.forall_mem_cons.mpr ⟨by rw [name_of_declared? found, found], ih⟩

theorem climbs_nil_iff : s.Climbs m [] last ↔ last = m := by
  constructor
  · rintro ⟨⟩
    rfl
  · rintro rfl
    exact .here _

theorem climbs_cons_iff (child : m.parent = some name) :
    s.Climbs m (next :: path) last ↔ s.declared? name = some next ∧ s.Climbs next path last := by
  constructor
  · intro climbs
    cases climbs with
    | step child' found further =>
      obtain rfl := Option.some.inj (child.symm.trans child')
      exact ⟨found, further⟩
  · rintro ⟨found, further⟩
    exact .step child found further

/-- A way to the top is a way. -/
theorem Ancestry.exists_climbs {ancestors : List MachineDecl} (leads : s.Ancestry m ancestors) :
    ∃ last, s.Climbs m ancestors last := by
  induction leads with
  | root _ => exact ⟨_, .here _⟩
  | step child found _ ih =>
    obtain ⟨last, further⟩ := ih
    exact ⟨last, .step child found further⟩

/-- A way on which no name is met twice has fewer steps than there are machines, whatever the
limit. -/
theorem Climbs.length_lt (indexed : m ∈ s.machineTable.values) (climbs : s.Climbs m path last)
    (distinct : ((m :: path).map MachineDecl.name).Nodup) :
    path.length < s.machineTable.names.length := by
  have inside : (m :: path).map MachineDecl.name ⊆ s.machineTable.names := by
    rw [← map_name_values_machineTable]
    apply List.map_subset
    refine List.cons_subset.mpr ⟨indexed, fun a member => ?_⟩
    exact mem_values_machineTable.mpr (climbs.declared a member)
  have counted := (distinct.subperm inside).length_le
  rw [List.map_cons, List.length_cons, List.length_map] at counted
  exact counted

/-! ## The search -/

/-- The search, with some names met before and some steps left, is stopped at a name. -/
structure Halts (s : SystemDecl) (left : Nat) (met : List String) (m : MachineDecl)
    (path : List MachineDecl) (name : String) : Prop where
  climbs : ∃ last, s.Climbs m path last ∧ last.parent = some name
  distinct : (path.map MachineDecl.name).Nodup
  unmet : ∀ a ∈ path, a.name ∉ met
  short : path.length ≤ left
  obstacle : s.Obstacle (path.map MachineDecl.name ++ met) path.length left name

/-- Of the names that were met it matters which they are, and of the steps whether they are used
up. -/
theorem Obstacle.transfer {others : List String} {steps' limit' : Nat}
    (same : ∀ n, n ∈ met ↔ n ∈ others) (count : steps = limit ↔ steps' = limit')
    (obstacle : s.Obstacle met steps limit name) : s.Obstacle others steps' limit' name := by
  rcases obstacle with missing | ⟨found, again⟩ | ⟨found, fresh, spent⟩
  · exact .undeclared missing
  · exact .repeated found ((same name).mp again)
  · exact .tooFar found (mt (same name).mpr fresh) (count.mp spent)

theorem stopsAt_iff_halts :
    s.StopsAt o m path name ↔ s.Halts o.maxInheritanceDepth [m.name] m path name := by
  have same (n : String) : n ∈ (m :: path).map MachineDecl.name ↔
      n ∈ path.map MachineDecl.name ++ [m.name] := by
    simp [or_comm]
  have apart : m.name ∉ path.map MachineDecl.name ↔ ∀ a ∈ path, a.name ∉ [m.name] := by
    simp [eq_comm]
  constructor
  · rintro ⟨climbs, distinct, short, obstacle⟩
    obtain ⟨fresh, distinct⟩ := List.nodup_cons.mp distinct
    exact ⟨climbs, distinct, apart.mp fresh, short, obstacle.transfer same Iff.rfl⟩
  · rintro ⟨climbs, distinct, unmet, short, obstacle⟩
    exact ⟨climbs, List.nodup_cons.mpr ⟨apart.mpr unmet, distinct⟩, short,
      obstacle.transfer (fun n => (same n).symm) Iff.rfl⟩

theorem halts_nil_iff (child : m.parent = some name) :
    s.Halts left met m [] subject ↔ subject = name ∧ s.Obstacle met 0 left name := by
  constructor
  · rintro ⟨⟨last, climbs, stops⟩, -, -, -, obstacle⟩
    obtain rfl := climbs_nil_iff.mp climbs
    obtain rfl := Option.some.inj (child.symm.trans stops)
    exact ⟨rfl, obstacle⟩
  · rintro ⟨rfl, obstacle⟩
    exact ⟨⟨m, .here m, child⟩, .nil, by simp, Nat.zero_le _, obstacle⟩

theorem halts_cons_iff (child : m.parent = some name) :
    s.Halts left met m (next :: path) subject ↔ s.declared? name = some next ∧ name ∉ met ∧
      ∃ fewer, left = fewer + 1 ∧ s.Halts fewer (name :: met) next path subject := by
  have same (n : String) : n ∈ (next :: path).map MachineDecl.name ++ met ↔
      n ∈ path.map MachineDecl.name ++ next.name :: met := by
    simp only [List.map_cons, List.cons_append, List.mem_cons, List.mem_append]
    tauto
  constructor
  · rintro ⟨⟨last, climbs, stops⟩, distinct, unmet, short, obstacle⟩
    obtain ⟨found, further⟩ := (climbs_cons_iff child).mp climbs
    obtain rfl := name_of_declared? found
    obtain ⟨fresh, unmet⟩ := List.forall_mem_cons.mp unmet
    obtain ⟨apart, distinct⟩ := List.nodup_cons.mp distinct
    obtain ⟨fewer, rfl⟩ : ∃ fewer, left = fewer + 1 := by
      refine Nat.exists_eq_add_one_of_ne_zero fun spent => ?_
      simp [spent] at short
    refine ⟨found, fresh, fewer, rfl, ⟨last, further, stops⟩, distinct, fun a member => ?_,
      by simpa using short, obstacle.transfer same (by simp)⟩
    rw [List.mem_cons, not_or]
    exact ⟨fun again => apart (again ▸ List.mem_map_of_mem member), unmet a member⟩
  · rintro ⟨found, fresh, fewer, rfl, ⟨last, further, stops⟩, distinct, unmet, short, obstacle⟩
    obtain rfl := name_of_declared? found
    refine ⟨⟨last, .step child found further, stops⟩, ?_, ?_, by simpa using short,
      obstacle.transfer (fun n => (same n).symm) (by simp)⟩
    · refine List.nodup_cons.mpr ⟨fun again => ?_, distinct⟩
      obtain ⟨a, member, named⟩ := List.mem_map.mp again
      exact unmet a member (named ▸ List.mem_cons_self ..)
    · refine List.forall_mem_cons.mpr ⟨fresh, fun a member before => ?_⟩
      exact unmet a member (List.mem_cons_of_mem _ before)

/-- What the search fails with, one step at a time: the parent stops it, or it is stopped further
up. -/
theorem exists_halts_iff (child : m.parent = some name) :
    (∃ path subject, s.Halts left met m path subject ∧
        v = ⟨.invalidParent, start, some subject⟩) ↔
      (s.Obstacle met 0 left name ∧ v = ⟨.invalidParent, start, some name⟩) ∨
        ∃ next fewer, s.declared? name = some next ∧ name ∉ met ∧ left = fewer + 1 ∧
          ∃ path subject, s.Halts fewer (name :: met) next path subject ∧
            v = ⟨.invalidParent, start, some subject⟩ := by
  constructor
  · rintro ⟨_ | ⟨next, path⟩, subject, halts, failed⟩
    · obtain ⟨rfl, obstacle⟩ := (halts_nil_iff child).mp halts
      exact .inl ⟨obstacle, failed⟩
    · obtain ⟨found, fresh, fewer, more, further⟩ := (halts_cons_iff child).mp halts
      exact .inr ⟨next, fewer, found, fresh, more, path, subject, further, failed⟩
  · rintro (⟨obstacle, failed⟩ | ⟨next, fewer, found, fresh, more, path, subject, further, failed⟩)
    · exact ⟨[], name, (halts_nil_iff child).mpr ⟨rfl, obstacle⟩, failed⟩
    · exact ⟨next :: path, subject,
        (halts_cons_iff child).mpr ⟨found, fresh, fewer, more, further⟩, failed⟩

/-- What the search does at a machine that has a parent: it fails there, or goes on with one step
less. -/
theorem ancestorsFrom_eq_error_step (child : m.parent = some name) :
    ancestorsFrom s.machineTable start left met m = .error v ↔
      (s.Obstacle met 0 left name ∧ v = ⟨.invalidParent, start, some name⟩) ∨
        ∃ next fewer, s.declared? name = some next ∧ name ∉ met ∧ left = fewer + 1 ∧
          ancestorsFrom s.machineTable start fewer (name :: met) next = .error v := by
  rw [ancestorsFrom, child]
  dsimp only
  rw [get?_machineTable]
  cases found : s.declared? name with
  | none => simp [Obstacle.undeclared found, eq_comm]
  | some next =>
    by_cases again : name ∈ met
    · simp [again, Obstacle.repeated found again, eq_comm]
    · cases left with
      | zero => simp [again, Obstacle.tooFar found again, eq_comm]
      | succ fewer =>
        have free : ¬ s.Obstacle met 0 (fewer + 1) name := by
          rintro (missing | ⟨-, before⟩ | ⟨-, -, spent⟩)
          · simp [found] at missing
          · exact again before
          · simp at spent
        cases further : ancestorsFrom s.machineTable start fewer (name :: met) next <;>
          simp [again, free, further]

/-- The search fails exactly with the name that stops it. -/
theorem ancestorsFrom_eq_error_iff :
    ancestorsFrom s.machineTable start left met m = .error v ↔
      ∃ path subject, s.Halts left met m path subject ∧
        v = ⟨.invalidParent, start, some subject⟩ := by
  induction left using Nat.strongRecOn generalizing met m with
  | ind left ih =>
    cases child : m.parent with
    | none =>
      have arrived : ancestorsFrom s.machineTable start left met m = .ok [] := by
        rw [ancestorsFrom, child]
      rw [arrived]
      constructor
      · rintro ⟨⟩
      · rintro ⟨path, subject, ⟨⟨last, climbs, stops⟩, -⟩, -⟩
        cases climbs with
        | here => simp [child] at stops
        | step child' => simp [child] at child'
    | some name =>
      rw [ancestorsFrom_eq_error_step child, exists_halts_iff child]
      refine or_congr Iff.rfl (exists_congr fun next => exists_congr fun fewer => ?_)
      refine and_congr_right fun _ => and_congr_right fun _ => and_congr_right fun more => ?_
      exact ih fewer (by omega)

theorem ancestors_eq_error_iff : m.ancestors s.machineTable o = .error v ↔
    ∃ path name, s.StopsAt o m path name ∧ v = ⟨.invalidParent, m.name, some name⟩ := by
  simp only [MachineDecl.ancestors, ancestorsFrom_eq_error_iff, stopsAt_iff_halts]

/-! ## How the search ends -/

/-- No two limits differ that are not below the number of machines: the search ends before. -/
theorem ancestors_unlimited (indexed : m ∈ s.machineTable.values) {first second : Nat}
    (large : s.machineTable.names.length ≤ first) (large' : s.machineTable.names.length ≤ second) :
    m.ancestors s.machineTable (o.withMaxInheritanceDepth first) =
      m.ancestors s.machineTable (o.withMaxInheritanceDepth second) := by
  cases search : m.ancestors s.machineTable (o.withMaxInheritanceDepth first) with
  | ok ancestors =>
    obtain ⟨leads, distinct, -⟩ := ancestors_eq_ok_iff.mp search
    obtain ⟨last, climbs⟩ := leads.exists_climbs
    have short := climbs.length_lt indexed distinct
    exact (ancestors_eq_ok_iff.mpr ⟨leads, distinct, show _ ≤ second by omega⟩).symm
  | error v =>
    obtain ⟨path, name, ⟨⟨last, climbs, stops⟩, distinct, -, obstacle⟩, rfl⟩ :=
      ancestors_eq_error_iff.mp search
    have short := climbs.length_lt indexed distinct
    have count : path.length = first ↔ path.length = second := by omega
    exact (ancestors_eq_error_iff.mpr ⟨path, name, ⟨⟨last, climbs, stops⟩, distinct,
      show _ ≤ second by omega, obstacle.transfer (fun _ => Iff.rfl) count⟩, rfl⟩).symm

/-- What the search for the ancestors of a machine does. -/
structure Ascends (s : SystemDecl) (o : Options) (m : MachineDecl) : Prop where
  /-- It finds the ancestors if the way leads to the top. -/
  finds (ancestors : List MachineDecl) :
    m.ancestors s.machineTable o = .ok ancestors ↔ s.Lineage o m ancestors
  /-- It fails with the name that stops it otherwise. -/
  fails (v : Violation) : m.ancestors s.machineTable o = .error v ↔
    ∃ path name, s.StopsAt o m path name ∧ v = ⟨.invalidParent, m.name, some name⟩
  /-- It takes fewer steps than there are machines. -/
  ends (path : List MachineDecl) (last : MachineDecl) (climbs : s.Climbs m path last)
    (distinct : ((m :: path).map MachineDecl.name).Nodup) :
    path.length < s.machineTable.names.length
  /-- It ends by itself: a limit that lets it meet all machines is as good as any higher one. -/
  unlimited (limit : Nat) (large : s.machineTable.names.length ≤ limit) :
    m.ancestors s.machineTable (o.withMaxInheritanceDepth limit) =
      m.ancestors s.machineTable (o.withMaxInheritanceDepth s.machineTable.names.length)
  /-- What it finds is the parent, followed by what is found from there. -/
  parentFirst (parent : MachineDecl) (rest : List MachineDecl)
    (found : m.ancestors s.machineTable o = .ok (parent :: rest)) :
    m.parent = some parent.name ∧ s.declared? parent.name = some parent ∧
      parent.ancestors s.machineTable o = .ok rest
  /-- From every ancestor it finds the ones above. -/
  above (below : List MachineDecl) (a : MachineDecl) (higher : List MachineDecl)
    (found : m.ancestors s.machineTable o = .ok (below ++ a :: higher)) :
    s.declared? a.name = some a ∧ a.ancestors s.machineTable o = .ok higher

/-- From every machine that is indexed, the search for ancestors ends: at the top with the
ancestors, or at the first name that is not declared, or has been met, or lies beyond the limit,
with that name. All ancestors that are found have found theirs. -/
theorem ancestors_ascend (s : SystemDecl) (o : Options) {m : MachineDecl}
    (indexed : m ∈ s.machineTable.values) : s.Ascends o m where
  finds _ := ancestors_eq_ok_iff
  fails _ := ancestors_eq_error_iff
  ends _ _ climbs distinct := climbs.length_lt indexed distinct
  unlimited _ large := ancestors_unlimited indexed large (Nat.le_refl _)
  parentFirst parent rest found := by
    have lineage := ancestors_eq_ok_iff.mp found
    obtain ⟨declared, above⟩ := lineage.parent
    cases lineage.leads with
    | step child named _ =>
      exact ⟨by rw [child, name_of_declared? named], declared, ancestors_eq_ok_iff.mpr above⟩
  above below a higher found := by
    have lineage := ancestors_eq_ok_iff.mp found
    have split : m :: (below ++ a :: higher) = (m :: below) ++ a :: higher := rfl
    obtain ⟨declared, above⟩ := lineage.above (mem_values_machineTable.mp indexed) split
    exact ⟨declared, ancestors_eq_ok_iff.mpr above⟩

/-- Two machines that extend each other, and a third one that leads into their circle. -/
def circle : SystemDecl := ⟨"circle", [
  (MachineDecl.ofName "outside").extending "first",
  (MachineDecl.ofName "first").extending "second",
  (MachineDecl.ofName "second").extending "first"]⟩

theorem ancestors_ascend_circle : ∃ m ∈ circle.machineTable.values, ∃ path,
    m.name = "outside" ∧ circle.StopsAt .standard m path "first" ∧ path.length = 2 ∧
      m.ancestors circle.machineTable .standard =
        .error ⟨.invalidParent, "outside", some "first"⟩ := by
  have indexed : (MachineDecl.ofName "outside").extending "first" ∈ circle.machineTable.values :=
    mem_values_machineTable.mpr rfl
  have stops : circle.StopsAt .standard ((MachineDecl.ofName "outside").extending "first")
      [(MachineDecl.ofName "first").extending "second",
        (MachineDecl.ofName "second").extending "first"] "first" :=
    ⟨⟨_, .step rfl rfl (.step rfl rfl (.here _)), rfl⟩, by decide, by decide,
      .repeated rfl (by decide)⟩
  exact ⟨_, indexed, _, rfl, stops, rfl,
    ((ancestors_ascend circle .standard indexed).fails _).mpr ⟨_, _, stops, rfl⟩⟩

end SystemDecl

end StateMachines
