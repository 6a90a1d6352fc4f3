import Mathlib.Data.List.Induction
import StateMachines.Proofs.Lineage

/-! # Merged states

States are folded root first, and a declaration that replaces one which does not allow it is
refused. As long as nothing is refused, the fold is the plain table of the declarations, so what a
declaration replaces can be said on the declarations before it. What is refused of a lineage is
what is refused of the parent's lineage and then of the machine's own states.
-/

namespace StateMachines

theorem StateDecl.isOverridable_iff {st : StateDecl} {o : Options} :
    st.isOverridable o = true ↔
      st.isVirtual = true ∨ o.abstractStatesOverridable = true ∧ st.isAbstract = true := by
  simp [isOverridable]

namespace PlacedState

/-- A state under its name. -/
def entry (p : PlacedState) : String × PlacedState := (p.decl.name, p)

end PlacedState

namespace MachineDecl

/-- The states that a machine declares, by name. -/
def namedStates (m : MachineDecl) : List (String × PlacedState) :=
  m.placedStates.map PlacedState.entry

theorem mem_namedStates {m : MachineDecl} {name : String} {p : PlacedState} :
    (name, p) ∈ m.namedStates ↔ p.decl ∈ m.states ∧ p.decl.name = name ∧ p.declaredIn = m.name := by
  obtain ⟨decl, declaredIn⟩ := p
  simp only [namedStates, placedStates, PlacedState.entry, List.map_map, List.mem_map,
    Function.comp_apply, Prod.mk.injEq, PlacedState.mk.injEq]
  constructor
  · rintro ⟨st, member, rfl, rfl, rfl⟩
    exact ⟨member, rfl, rfl⟩
  · rintro ⟨member, rfl, rfl⟩
    exact ⟨decl, member, rfl, rfl, rfl⟩

/-- A state of a lineage is one that its origin declares, under its own name. -/
theorem origin_of_nearest? {lineage : List MachineDecl} {name : String} {p : PlacedState}
    (found : nearest? namedStates lineage name = some p) :
    ∃ m ∈ lineage, p.declaredIn = m.name ∧ p.decl ∈ m.states ∧ p.decl.name = name := by
  obtain ⟨m, member, entry⟩ := mem_of_nearest? namedStates found
  obtain ⟨declared, named, origin⟩ := mem_namedStates.mp entry
  exact ⟨m, member, origin, declared, named⟩

end MachineDecl

namespace MergedStates

variable {o : Options}

/-- The states of some declarations, in order, over those that are there. -/
def addAll (o : Options) (states : Table PlacedState) (ps : List PlacedState) : MergedStates :=
  ps.foldl (add o) ⟨states, []⟩

theorem mergeStates_eq (o : Options) (lineage : List MachineDecl) :
    mergeStates o lineage = addAll o .empty (lineage.flatMap MachineDecl.placedStates) := rfl

/-- What was refused before has no bearing on what comes. -/
theorem foldl_add (ps : List PlacedState) (merged : MergedStates) :
    ps.foldl (add o) merged =
      ⟨(addAll o merged.states ps).states,
        merged.refused ++ (addAll o merged.states ps).refused⟩ := by
  induction ps generalizing merged with
  | nil => simp [addAll]
  | cons p rest ih =>
    rw [addAll, List.foldl_cons, List.foldl_cons, ih, ih (add o ⟨merged.states, []⟩ p)]
    unfold add
    cases merged.states.get? p.decl.name with
    | none => simp
    | some earlier => by_cases allowed : earlier.decl.isOverridable o <;> simp [allowed]

theorem addAll_append (states : Table PlacedState) (front back : List PlacedState) :
    addAll o states (front ++ back) =
      ⟨(addAll o (addAll o states front).states back).states,
        (addAll o states front).refused ++
          (addAll o (addAll o states front).states back).refused⟩ := by
  rw [addAll, List.foldl_append, foldl_add]
  rfl

/-- Only declarations are refused. -/
theorem refused_sublist (states : Table PlacedState) (ps : List PlacedState) :
    (addAll o states ps).refused.Sublist ps := by
  induction ps generalizing states with
  | nil => exact List.Sublist.refl _
  | cons p rest ih =>
    rw [addAll, List.foldl_cons, foldl_add]
    unfold add
    cases states.get? p.decl.name with
    | none => exact (ih _).cons p
    | some earlier =>
      by_cases allowed : earlier.decl.isOverridable o
      · simpa [allowed] using (ih _).cons p
      · simpa [allowed] using (ih states).cons_cons p

/-- A state may be declared after some others if the last one of its name allows it. -/
def Permits (o : Options) (before : List PlacedState) (p : PlacedState) : Prop :=
  ∀ earlier, Table.lastUnder? (before.map PlacedState.entry) p.decl.name = some earlier →
    earlier.decl.isOverridable o = true

/-- Every declaration is permitted after those before it. -/
def AllPermitted (o : Options) (ps : List PlacedState) : Prop :=
  ∀ before p after, ps = before ++ p :: after → Permits o before p

/-- A list with one more element is split inside or at its end. -/
private theorem append_singleton_eq_iff {front before after : List PlacedState}
    {p q : PlacedState} :
    front ++ [p] = before ++ q :: after ↔
      (∃ inside, after = inside ++ [p] ∧ front = before ++ q :: inside) ∨
        after = [] ∧ p = q ∧ front = before := by
  constructor
  · intro split
    rcases List.eq_nil_or_concat after with rfl | ⟨inside, r, rfl⟩
    · obtain ⟨same, last⟩ := List.append_inj' split rfl
      exact .inr ⟨rfl, (List.cons.inj last).1, same⟩
    · rw [List.concat_eq_append, ← List.cons_append, ← List.append_assoc] at split
      obtain ⟨same, last⟩ := List.append_inj' split rfl
      rw [(List.cons.inj last).1]
      exact .inl ⟨inside, List.concat_eq_append, same⟩
  · rintro (⟨inside, rfl, rfl⟩ | ⟨rfl, rfl, rfl⟩)
    · simp
    · rfl

theorem allPermitted_concat {front : List PlacedState} {p : PlacedState} :
    AllPermitted o (front ++ [p]) ↔ AllPermitted o front ∧ Permits o front p := by
  simp only [AllPermitted, append_singleton_eq_iff]
  constructor
  · intro each
    constructor
    · intro before q after split
      exact each before q (after ++ [p]) (.inl ⟨after, rfl, split⟩)
    · exact each front p [] (.inr ⟨rfl, rfl, rfl⟩)
  · rintro ⟨each, final⟩ before q after (⟨inside, rfl, split⟩ | ⟨rfl, rfl, rfl⟩)
    · exact each before q inside split
    · exact final

private theorem refused_add_ne_nil {merged : MergedStates} (p : PlacedState)
    (some_refused : merged.refused ≠ []) : (add o merged p).refused ≠ [] := by
  unfold add
  cases merged.states.get? p.decl.name with
  | none => exact some_refused
  | some earlier =>
    by_cases allowed : earlier.decl.isOverridable o <;> simp [allowed, some_refused]

/-- While nothing is refused, the fold is the table of the declarations; and nothing is refused
exactly if every declaration is permitted after those before it. -/
theorem addAll_spec (ps : List PlacedState) :
    ((addAll o .empty ps).refused = [] ↔ AllPermitted o ps) ∧
    ((addAll o .empty ps).refused = [] →
      (addAll o .empty ps).states = .ofList (ps.map PlacedState.entry)) := by
  induction ps using List.reverseRecOn with
  | nil => exact ⟨by simp [addAll, AllPermitted], fun _ => rfl⟩
  | append_singleton front p ih =>
    obtain ⟨refusals, table⟩ := ih
    have last : addAll o .empty (front ++ [p]) = add o (addAll o .empty front) p := by
      simp [addAll, List.foldl_append]
    rw [allPermitted_concat, ← refusals, last]
    by_cases clean : (addAll o .empty front).refused = []
    · have states := table clean
      have grown : (addAll o .empty front).states.set p.decl.name p =
          .ofList ((front ++ [p]).map PlacedState.entry) := by
        rw [List.map_append, Table.ofList_append, states]
        rfl
      have held : (addAll o .empty front).states.get? p.decl.name =
          Table.lastUnder? (front.map PlacedState.entry) p.decl.name := by
        rw [states, Table.get?_ofList]
      unfold add Permits
      rw [held]
      cases Table.lastUnder? (front.map PlacedState.entry) p.decl.name with
      | none => exact ⟨by simp [clean], fun _ => grown⟩
      | some earlier =>
        by_cases allowed : earlier.decl.isOverridable o = true
        · exact ⟨by simp [clean, allowed], fun _ => by simpa [allowed] using grown⟩
        · exact ⟨by simp [clean, allowed], fun none => by simp [allowed] at none⟩
    · have kept := refused_add_ne_nil (o := o) p clean
      exact ⟨by simp [kept, clean], fun none => absurd none kept⟩

/-- Nothing is refused of declarations under distinct names. -/
theorem refused_eq_nil_of_nodup {ps : List PlacedState}
    (distinct : (ps.map fun p => p.decl.name).Nodup) : (addAll o .empty ps).refused = [] := by
  refine (addAll_spec ps).1.mpr ?_
  rintro before p after rfl earlier found
  have declared : p.decl.name ∈ (before.map PlacedState.entry).map Prod.fst :=
    Table.lastUnder?_isSome.mp (by rw [found]; rfl)
  rw [List.map_append, List.map_cons, List.nodup_append] at distinct
  exact absurd rfl (distinct.2.2 p.decl.name (by simpa [PlacedState.entry] using declared) _
    (List.mem_cons_self ..))

theorem allPermitted_append {front back : List PlacedState} :
    AllPermitted o (front ++ back) ↔ AllPermitted o front ∧
      ∀ before p after, back = before ++ p :: after → Permits o (front ++ before) p := by
  induction back using List.reverseRecOn with
  | nil => simp
  | append_singleton back p ih =>
    rw [← List.append_assoc, allPermitted_concat, ih, and_assoc, and_congr_right_iff]
    intro _
    simp only [append_singleton_eq_iff]
    constructor
    · rintro ⟨each, final⟩ before q after (⟨inside, rfl, split⟩ | ⟨rfl, rfl, rfl⟩)
      · exact each before q inside split
      · exact final
    · intro each
      constructor
      · intro before q after split
        exact each before q (after ++ [p]) (.inl ⟨after, rfl, split⟩)
      · exact each back p [] (.inr ⟨rfl, rfl, rfl⟩)

end MergedStates

/-! ## What is refused of a lineage -/

namespace MachineDecl

/-- The states of a machine that are refused after those of its ancestors. -/
def ownRefused (m : MachineDecl) (o : Options) (ancestors : List MachineDecl) : List PlacedState :=
  (MergedStates.addAll o (mergeStates o ancestors.reverse).states m.placedStates).refused

/-- A machine redeclares a state, one of its own or of an ancestor, only where the latest
declaration before is virtual, or abstract if the options let abstract states be overridden. -/
def OverridesAllowed (m : MachineDecl) (o : Options) (ancestors : List MachineDecl) : Prop :=
  ∀ before st after, m.states = before ++ st :: after →
    ∀ earlier, nearest? namedStates ({ m with states := before } :: ancestors) st.name =
      some earlier → earlier.decl.isVirtual = true ∨
        o.abstractStatesOverridable = true ∧ earlier.decl.isAbstract = true

variable {o : Options} {m : MachineDecl} {ancestors : List MachineDecl}

theorem refused_lineage :
    (mergeStates o (m :: ancestors).reverse).refused =
      (mergeStates o ancestors.reverse).refused ++ m.ownRefused o ancestors := by
  simp only [MergedStates.mergeStates_eq, ownRefused, List.reverse_cons, List.flatMap_append,
    List.flatMap_singleton, MergedStates.addAll_append]

theorem declaredIn_of_ownRefused {p : PlacedState} (refused : p ∈ m.ownRefused o ancestors) :
    p.declaredIn = m.name := by
  obtain ⟨st, _, rfl⟩ := List.mem_map.mp ((MergedStates.refused_sublist _ _).subset refused)
  rfl

theorem declaredIn_of_refused {p : PlacedState}
    (refused : p ∈ (mergeStates o ancestors.reverse).refused) :
    p.declaredIn ∈ ancestors.map MachineDecl.name := by
  have placed := (MergedStates.refused_sublist _ _).subset refused
  obtain ⟨a, member, placed⟩ := List.mem_flatMap.mp placed
  obtain ⟨st, _, rfl⟩ := List.mem_map.mp placed
  exact List.mem_map_of_mem (List.mem_reverse.mp member)

/-- Of what is refused of a lineage, the part of one machine in it is what is refused of that
machine after its own ancestors. -/
theorem refused_filter {lineage below above : List MachineDecl} {a : MachineDecl}
    (distinct : (lineage.map MachineDecl.name).Nodup) (split : lineage = below ++ a :: above) :
    ((mergeStates o lineage.reverse).refused.filter fun p => p.declaredIn == a.name) =
      a.ownRefused o above := by
  induction below generalizing lineage with
  | nil =>
    subst split
    rw [List.nil_append, refused_lineage, List.filter_append, List.filter_eq_nil_iff.mpr,
      List.nil_append, List.filter_eq_self.mpr]
    · intro p member
      simpa using declaredIn_of_ownRefused member
    · intro p member same
      rw [beq_iff_eq] at same
      exact (List.nodup_cons.mp distinct).1 (same ▸ declaredIn_of_refused member)
  | cons m rest ih =>
    subst split
    rw [List.cons_append, List.map_cons, List.nodup_cons] at distinct
    rw [List.cons_append, refused_lineage, List.filter_append, ih distinct.2 rfl,
      List.filter_eq_nil_iff.mpr, List.append_nil]
    intro p member same
    rw [beq_iff_eq, declaredIn_of_ownRefused member] at same
    exact distinct.1 (by simp [same])

/-- The declarations of a lineage, by name, root first. -/
theorem map_entry_lineage (lineage : List MachineDecl) :
    (lineage.flatMap placedStates).map PlacedState.entry = lineage.flatMap namedStates := by
  rw [List.map_flatMap]
  rfl

/-- After ancestors of which nothing is refused, nothing is refused of a machine exactly if its
overrides are allowed. -/
theorem ownRefused_eq_nil_iff (clean : (mergeStates o ancestors.reverse).refused = []) :
    m.ownRefused o ancestors = [] ↔ m.OverridesAllowed o ancestors := by
  have whole : m.ownRefused o ancestors = [] ↔
      (MergedStates.addAll o .empty
        ((m :: ancestors).reverse.flatMap placedStates)).refused = [] := by
    rw [← MergedStates.mergeStates_eq, refused_lineage, clean, List.nil_append]
  rw [whole, List.reverse_cons, List.flatMap_append, List.flatMap_singleton,
    (MergedStates.addAll_spec _).1, MergedStates.allPermitted_append,
    ← (MergedStates.addAll_spec _).1, ← MergedStates.mergeStates_eq, and_iff_right clean]
  have latest : ∀ before name, Table.lastUnder?
      ((ancestors.reverse.flatMap placedStates ++ ({ m with states := before } :
        MachineDecl).placedStates).map PlacedState.entry) name =
      nearest? namedStates ({ m with states := before } :: ancestors) name := by
    intro before name
    rw [List.map_append, map_entry_lineage, Table.lastUnder?_append, nearest?_cons,
      lastUnder?_flatMap_reverse]
    rfl
  constructor
  · intro each before st after split earlier found
    rw [← StateDecl.isOverridable_iff]
    refine each ({ m with states := before } : MachineDecl).placedStates ⟨st, m.name⟩
      ({ m with states := after } : MachineDecl).placedStates ?_ earlier ?_
    · simp [placedStates, split]
    · rw [latest]
      exact found
  · intro allowed before p after split earlier found
    obtain ⟨front, rest, states, rfl, tail⟩ := List.map_eq_append_iff.mp split
    obtain ⟨st, back, rfl, rfl, rfl⟩ := List.map_eq_cons_iff.mp tail
    exact StateDecl.isOverridable_iff.mpr
      (allowed front st back states earlier ((latest front st.name).symm.trans found))

end MachineDecl

namespace SystemDecl

variable {s : SystemDecl} {o : Options}

/-- If no machine is refused a state after clean ancestors, nothing is refused of any lineage. -/
theorem refused_lineage_eq_nil
    (each : ∀ m ∈ s.machines, ∀ ancestors, s.Lineage o m ancestors →
      (mergeStates o ancestors.reverse).refused = [] → m.ownRefused o ancestors = [])
    {m : MachineDecl} {ancestors : List MachineDecl} (member : m ∈ s.machines)
    (lineage : s.Lineage o m ancestors) :
    (mergeStates o ancestors.reverse).refused = [] ∧
      (mergeStates o (m :: ancestors).reverse).refused = [] := by
  suffices clean : (mergeStates o ancestors.reverse).refused = [] by
    exact ⟨clean, by rw [MachineDecl.refused_lineage, clean, each m member ancestors lineage clean,
      List.nil_append]⟩
  induction ancestors generalizing m with
  | nil => rfl
  | cons next rest ih =>
    obtain ⟨found, parent⟩ := lineage.parent
    have member := mem_of_declared? found
    have clean := ih member parent
    rw [MachineDecl.refused_lineage, clean, each next member rest parent clean, List.nil_append]

end SystemDecl

/-! ## The merged tables -/

namespace Candidate

variable {o : Options} {m : MachineDecl} {ancestors : List MachineDecl}

/-- The table of a lineage of declarations that are never refused. -/
def tableOf {α : Type} (declares : MachineDecl → List (String × α)) (lineage : List MachineDecl) :
    Table α := .ofList (lineage.reverse.flatMap declares)

theorem get?_tableOf {α : Type} (declares : MachineDecl → List (String × α))
    (lineage : List MachineDecl) (name : String) :
    (tableOf declares lineage).get? name = nearest? declares lineage name := by
  rw [tableOf, Table.get?_ofList, lastUnder?_flatMap_reverse]

/-- The table holds what some machine of the lineage declares. -/
theorem mem_of_mem_tableOf {α : Type} {declares : MachineDecl → List (String × α)}
    {lineage : List MachineDecl} {entry : String × α}
    (member : entry ∈ (tableOf declares lineage).entries) : ∃ m ∈ lineage, entry ∈ declares m := by
  have held : (tableOf declares lineage).get? entry.1 = some entry.2 :=
    Table.get?_eq_some_iff.mpr member
  rw [get?_tableOf] at held
  exact mem_of_nearest? declares held

/-- A machine without ancestors has the table of its own declarations. -/
theorem tableOf_singleton {α : Type} (declares : MachineDecl → List (String × α))
    (m : MachineDecl) : tableOf declares [m] = .ofList (declares m) := by
  rw [tableOf, List.reverse_singleton, List.flatMap_singleton]

/-- A machine sets its own entries in the table of its ancestors. -/
theorem tableOf_cons {α : Type} (declares : MachineDecl → List (String × α)) (m : MachineDecl)
    (ancestors : List MachineDecl) :
    tableOf declares (m :: ancestors) = (tableOf declares ancestors).setAll (declares m) := by
  rw [tableOf, List.reverse_cons, List.flatMap_append, List.flatMap_singleton,
    Table.ofList_append]
  rfl

theorem states_ofLineage_eq : (ofLineage o m ancestors).states =
    (mergeStates o (m :: ancestors).reverse).states := by
  rw [List.reverse_cons]
  rfl

theorem refused_ofLineage : (ofLineage o m ancestors).refused =
    (mergeStates o (m :: ancestors).reverse).refused := by
  rw [List.reverse_cons]
  rfl

@[simp] theorem name_ofLineage : (ofLineage o m ancestors).name = m.name := rfl

@[simp] theorem isAbstract_ofLineage : (ofLineage o m ancestors).isAbstract = m.isAbstract := rfl

@[simp] theorem ancestors_ofLineage :
    (ofLineage o m ancestors).ancestors = ancestors.map MachineDecl.name := rfl

theorem actions_ofLineage :
    (ofLineage o m ancestors).actions = tableOf MachineDecl.namedActions (m :: ancestors) := by
  rw [tableOf, List.reverse_cons]
  rfl

theorem guards_ofLineage :
    (ofLineage o m ancestors).guards = tableOf MachineDecl.namedGuards (m :: ancestors) := by
  rw [tableOf, List.reverse_cons]
  rfl

theorem localContext_ofLineage :
    (ofLineage o m ancestors).localContext =
      tableOf MachineDecl.localBindings (m :: ancestors) := by
  rw [tableOf, List.reverse_cons]
  rfl

theorem persistentContext_ofLineage :
    (ofLineage o m ancestors).persistentContext =
      tableOf MachineDecl.persistentBindings (m :: ancestors) := by
  rw [tableOf, List.reverse_cons]
  rfl

/-- Where nothing is refused, the states too are set one after the other. -/
theorem states_ofLineage (clean : (mergeStates o (m :: ancestors).reverse).refused = []) :
    (ofLineage o m ancestors).states = tableOf MachineDecl.namedStates (m :: ancestors) := by
  rw [states_ofLineage_eq, tableOf, ← MachineDecl.map_entry_lineage]
  exact (MergedStates.addAll_spec _).2 clean

end Candidate

end StateMachines
