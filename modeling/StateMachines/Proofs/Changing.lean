import StateMachines.Proofs.Visibility

/-! # What a change makes of an extent

Each operation of an extent is taken apart once here, into the change that it makes and where. What
is read afterwards of the name that is changed, and of every other, follows from that.
-/

namespace StateMachines

namespace Extent

variable {x y : Extent} {name : String} {inner outer : List Context} {c : Context} {ch : Change}
  {answer : Except ContextError Unit}

namespace Rewrites

/-- Other names are read as before. -/
theorem get_other (rewrites : x.Rewrites y inner c outer ch) {other : String}
    (apart : other ≠ ch.name) : y.get other = x.get other := by
  obtain ⟨before, m, changed, after⟩ := rewrites
  have same : (c.withContents m).get other = c.get other := by
    apply Context.get_withContents
    rw [Memory.get?_of_change changed, if_neg apart]
  have scan : getIn other (inner ++ c.withContents m :: outer) =
      getIn other (inner ++ c :: outer) := by
    clear before after
    induction inner with
    | nil => simp only [List.nil_append, getIn, same]
    | cons b inner ih => simp only [List.cons_append, getIn, ih]
  rw [get, get, before, after, scan]

/-- The name that was changed is read where it was changed, or behind it if it is gone. -/
theorem get_name (rewrites : x.Rewrites y inner c outer ch)
    (lacking : ∀ b ∈ inner, b.lacks ch.name = true) (reads : c.Reads ch.name) :
    y.get ch.name = match ch.value? with
      | some value => .ok value
      | none => getIn ch.name outer := by
  obtain ⟨before, m, changed, after⟩ := rewrites
  have held : (c.withContents m).get ch.name = m.get ch.name := by
    rw [Context.get_eq_of_reads (Context.reads_withContents reads m),
      Context.contents_withContents]
  have left : m.vars.get? ch.name = ch.value? := by
    rw [Memory.get?_of_change changed, if_pos rfl]
  rw [get, after, getIn_append lacking, getIn, held, Memory.get, left]
  cases ch.value? <;> rfl

end Rewrites

/-- Everything that creating a variable can do. -/
theorem create_cases {value : Value} (ran : x.create name value = (answer, y)) :
    (∃ refusal, answer = .error refusal ∧ y.scopes = x.scopes) ∨
      answer = .ok () ∧ ∃ c outer, x.Rewrites y [] c outer (.create name value) := by
  cases split : x.scopes with
  | nil =>
    have empty : x.create name value = (.error (.emptyExtent name), x) := by
      simp [create, isEmpty, split]
    obtain ⟨rfl, rfl⟩ := Prod.mk.inj (empty.symm.trans ran)
    exact .inl ⟨_, rfl, split⟩
  | cons c outer =>
    rcases changeOf_cases split ((create_eq split).symm.trans ran) with
      ⟨refusal, failed, same, -⟩ | ⟨done, rewrites⟩
    · exact .inl ⟨refusal, failed, same.trans split⟩
    · exact .inr ⟨done, c, outer, rewrites⟩

/-- Everything that assigning or deleting the innermost variable of a name can do. -/
theorem changeVisible_cases (ran : x.changeVisible name ch = (answer, y)) :
    (∃ refusal, answer = .error refusal ∧ y.scopes = x.scopes) ∨
      answer = .ok () ∧ ∃ inner c outer old, x.Stops name inner c outer ∧ c.get name = .ok old ∧
        x.Rewrites y inner c outer ch := by
  rcases x.lacking_or_stops name with lacking | ⟨inner, c, outer, stops⟩
  · rw [changeVisible, position_of_lacking lacking] at ran
    obtain ⟨rfl, rfl⟩ := Prod.mk.inj ran
    exact .inl ⟨_, rfl, rfl⟩
  · rw [changeVisible, stops.position] at ran
    cases read : c.get name with
    | error e =>
      rw [read] at ran
      obtain ⟨rfl, rfl⟩ := Prod.mk.inj ran
      exact .inl ⟨_, rfl, rfl⟩
    | ok old =>
      rw [read] at ran
      have made : changeOf inner c outer ch x.disk = (answer, y) := by
        rw [← stops.changeAt]
        exact ran
      rcases changeOf_cases stops.scopes made with ⟨refusal, failed, same, -⟩ | ⟨done, rewrites⟩
      · exact .inl ⟨refusal, failed, same⟩
      · exact .inr ⟨done, inner, c, outer, old, stops, read, rewrites⟩

/-- Setting a name creates it if all contexts lack it, and else assigns it. -/
theorem set_eq (x : Extent) (name : String) (value : Value) :
    ((∀ c ∈ x.scopes, c.lacks name = true) ∧
      x.set name value = placed .created (x.create name value)) ∨
    (∃ inner c outer, x.Stops name inner c outer) ∧
      x.set name value = placed .assigned (x.assign name value) := by
  rcases x.lacking_or_stops name with lacking | ⟨inner, c, outer, stops⟩
  · exact .inl ⟨lacking, by simp [set, position_of_lacking lacking]⟩
  · refine .inr ⟨⟨inner, c, outer, stops⟩, ?_⟩
    simp only [set, assign, changeVisible, stops.position]
    cases c.get name <;> rfl

end Extent

end StateMachines
