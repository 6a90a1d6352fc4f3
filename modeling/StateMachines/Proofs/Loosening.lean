import StateMachines.Proofs.Buildable

/-! # Looser options

Options are looser than others if they let lineages be at least as long, and let abstract states be
declared again where the others do. Under looser options a merge that refused nothing decides every
declaration as before, so the candidates of a system that is built are the same. Checking and
resolving read the options nowhere else, and the system is the same too.
-/

namespace StateMachines

/-- The second options allow all that the first ones do. -/
instance : LE Options where
  le o o' := o.maxInheritanceDepth ≤ o'.maxInheritanceDepth ∧
    (o.abstractStatesOverridable = true → o'.abstractStatesOverridable = true)

instance (o o' : Options) : Decidable (o ≤ o') :=
  inferInstanceAs (Decidable (o.maxInheritanceDepth ≤ o'.maxInheritanceDepth ∧ (_ → _)))

variable {o o' : Options}

/-! ## Merging -/

theorem StateDecl.isOverridable_mono {st : StateDecl} (looser : o ≤ o')
    (allowed : st.isOverridable o = true) : st.isOverridable o' = true := by
  rw [isOverridable_iff] at allowed ⊢
  rcases allowed with isVirtual | ⟨overridable, isAbstract⟩
  · exact .inl isVirtual
  · exact .inr ⟨looser.2 overridable, isAbstract⟩

namespace MergedStates

/-- A declaration that is taken in is taken in under looser options. -/
theorem add_mono (looser : o ≤ o') {merged : MergedStates} {p : PlacedState}
    (taken : (add o merged p).refused = merged.refused) : add o' merged p = add o merged p := by
  unfold add at taken ⊢
  cases held : merged.states.get? p.decl.name with
  | none => rfl
  | some earlier =>
    cases allowed : earlier.decl.isOverridable o with
    | true => simp [allowed, StateDecl.isOverridable_mono looser allowed]
    | false => simp [held, allowed] at taken

/-- Declarations of which none is refused are merged to the same states under looser options. -/
theorem addAll_mono (looser : o ≤ o') {states : Table PlacedState} {ps : List PlacedState}
    (clean : (addAll o states ps).refused = []) : addAll o' states ps = addAll o states ps := by
  induction ps generalizing states with
  | nil => rfl
  | cons p rest ih =>
    have split (options : Options) : addAll options states (p :: rest) =
        rest.foldl (add options) (add options ⟨states, []⟩ p) := rfl
    rw [split, foldl_add, List.append_eq_nil_iff] at clean
    rw [split, split, add_mono looser clean.1, foldl_add, foldl_add, ih clean.2]

end MergedStates

theorem Candidate.ofLineage_mono (looser : o ≤ o') {m : MachineDecl} {ancestors : List MachineDecl}
    (clean : (mergeStates o (m :: ancestors).reverse).refused = []) :
    ofLineage o' m ancestors = ofLineage o m ancestors := by
  rw [List.reverse_cons] at clean
  simp only [ofLineage, MergedStates.mergeStates_eq] at clean ⊢
  rw [MergedStates.addAll_mono looser clean]

/-! ## Building -/

namespace SystemDecl

variable {s : SystemDecl}

theorem Lineage.mono (looser : o ≤ o') {m : MachineDecl} {ancestors : List MachineDecl}
    (lineage : s.Lineage o m ancestors) : s.Lineage o' m ancestors :=
  { lineage with short := Nat.le_trans lineage.short looser.1 }

/-- The machines of a system that can be built have the same candidates under looser options. -/
theorem lineages_mono (looser : o ≤ o') (buildable : s.Buildable o) :
    s.lineages o' = s.lineages o := by
  apply List.map_congr_left
  intro m held
  have member := mem_of_declared? (mem_values_machineTable.mp held)
  obtain ⟨ancestors, lineage, -⟩ := buildable.conform m member
  have clean := (buildable.clean m member ancestors lineage).2
  rw [candidate_eq_ok_iff.mpr ⟨ancestors, lineage, rfl⟩,
    candidate_eq_ok_iff.mpr ⟨ancestors, lineage.mono looser, rfl⟩,
    Candidate.ofLineage_mono looser clean]

/-- Options are read for the candidates only. -/
theorem build_congr (same : s.lineages o = s.lineages o') : s.build o = s.build o' := by
  simp only [build, violations, invalidParents, candidates, same]

/-- A system that is built is built under looser options, and to the same graph. -/
theorem build_mono (s : SystemDecl) (looser : o ≤ o') {system : System}
    (built : s.build o = .ok system) : s.build o' = .ok system := by
  rw [build_congr (lineages_mono looser (buildable_of_build built)), built]

/-- A lathe that makes the abstract state of its base concrete. That state is virtual, so abstract
states need not be overridable. -/
def latheOverTool : SystemDecl :=
  let tool := (((MachineDecl.ofName "tool").asAbstract.withState
    (StateDecl.ofName "run").asVirtual.asAbstract).withState
      ((StateDecl.ofName "idle").on (.ofEvent "start" "run")))
  let lathe := ((MachineDecl.ofName "lathe").extending "tool").withState
    ((StateDecl.ofName "run").on (.ofEvent "stop" "idle"))
  ((SystemDecl.ofName "shop").withMachine lathe).withMachine tool

theorem build_mono_lathe : (⟨1, false⟩ : Options) ≤ .standard ∧
    ∃ system, latheOverTool.build ⟨1, false⟩ = .ok system ∧
      latheOverTool.build .standard = .ok system := by
  have looser : (⟨1, false⟩ : Options) ≤ .standard := by decide
  obtain ⟨system, built⟩ : ∃ system, latheOverTool.build ⟨1, false⟩ = .ok system :=
    exists_build_iff_violations.mpr (by decide +kernel)
  exact ⟨looser, system, built, build_mono latheOverTool looser built⟩

end SystemDecl

end StateMachines
