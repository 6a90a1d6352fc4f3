import StateMachines.Context.Extent
import StateMachines.Proofs.Table

/-! # What a change makes of a context

A change of a context is refused and leaves it as it is, or it does to the variables in order what
the kind of the change says, whatever keeps them. What is read of a name afterwards follows from
that.
-/

namespace StateMachines

/-- A name that is there splits the entries: setting it puts the value in its place, and erasing it
closes the gap. -/
theorem Table.exists_split {α : Type} {t : Table α} {name : String} (present : name ∈ t.names) :
    ∃ front old back, t.entries = front ++ (name, old) :: back ∧
      (∀ value, (t.set name value).entries = front ++ (name, value) :: back) ∧
      (t.erase name).entries = front ++ back := by
  obtain ⟨⟨key, old⟩, member, same⟩ := List.mem_map.mp present
  obtain rfl : key = name := same
  obtain ⟨front, back, split⟩ := List.append_of_mem member
  have distinct := t.distinct
  rw [split, List.map_append, List.map_cons, List.nodup_middle, List.nodup_cons, List.mem_append,
    not_or] at distinct
  obtain ⟨⟨before, behind⟩, -⟩ := distinct
  refine ⟨front, old, back, split, fun value => ?_, ?_⟩
  · have placed : (t.set key value).entries = Table.replaceIn key value t.entries := by
      simp [Table.set, present]
    have middle : Table.replaceIn key value (front ++ (key, old) :: back) =
        Table.replaceIn key value front ++ (key, value) :: Table.replaceIn key value back := by
      simp [Table.replaceIn]
    rw [placed, split, middle, replaceIn_of_not_mem before, replaceIn_of_not_mem behind]
  · have closed : (t.erase key).entries = t.entries.filter fun entry => entry.1 ≠ key := rfl
    rw [closed, split, List.filter_append, filter_of_not_mem before,
      List.filter_cons_of_neg (by simp), filter_of_not_mem behind]

/-! ## Variables -/

namespace Change

/-- The variable that is changed. -/
def name : Change → String
  | create name _ | assign name _ | delete name => name

/-- What the variable holds afterwards, if it is there. -/
def value? : Change → Option Value
  | create _ value | assign _ value => some value
  | delete _ => none

/-- What a change makes of variables in order. -/
inductive Makes : Change → (before after : List (String × Value)) → Prop
  | create {name : String} {before : List (String × Value)} (value : Value)
    (new : name ∉ before.map Prod.fst) :
    Makes (.create name value) before (before ++ [(name, value)])
  | assign (front : List (String × Value)) (name : String) (old value : Value)
    (back : List (String × Value)) :
    Makes (.assign name value) (front ++ (name, old) :: back) (front ++ (name, value) :: back)
  | delete (front : List (String × Value)) (name : String) (old : Value)
    (back : List (String × Value)) :
    Makes (.delete name) (front ++ (name, old) :: back) (front ++ back)

/-- Variables admit a change: a name is created once and has to be there to be assigned or
deleted. -/
def Suits (m : Memory) : Change → Prop
  | create name _ => name ∉ m.vars.names
  | assign name _ | delete name => name ∈ m.vars.names

end Change

namespace Memory

variable {m next : Memory} {ch : Change}

/-- A change that succeeds makes of the variables what its kind says. -/
theorem makes_of_change (changed : m.change ch = .ok next) :
    next.scope = m.scope ∧ ch.Makes m.vars.entries next.vars.entries := by
  refine ⟨scope_of_change changed, ?_⟩
  cases ch with
  | create name value =>
    simp only [change, create] at changed
    split at changed
    · contradiction
    · next absent =>
      obtain rfl := Except.ok.inj changed
      have new : name ∉ m.vars.names := fun present => absent ((Table.contains_iff ..).mpr present)
      rw [Table.entries_set_of_not_mem value new]
      exact .create value new
  | assign name value =>
    simp only [change, assign] at changed
    split at changed
    · next present =>
      obtain rfl := Except.ok.inj changed
      obtain ⟨front, old, back, split, replaced, -⟩ :=
        Table.exists_split ((Table.contains_iff ..).mp present)
      rw [split, replaced]
      exact .assign ..
    · contradiction
  | delete name =>
    simp only [change, delete] at changed
    split at changed
    · next present =>
      obtain rfl := Except.ok.inj changed
      obtain ⟨front, old, back, split, -, closed⟩ :=
        Table.exists_split ((Table.contains_iff ..).mp present)
      rw [split, closed]
      exact .delete ..
    · contradiction

/-- A change is made exactly of variables that admit it. -/
theorem exists_change_iff : (∃ next, m.change ch = .ok next) ↔ ch.Suits m := by
  have known (name : String) : m.contains name = true ↔ name ∈ m.vars.names :=
    Table.contains_iff ..
  cases ch with
  | create name value =>
    rw [change, create, Change.Suits, ← known]
    split <;> simp [*]
  | assign name value =>
    rw [change, assign, Change.Suits, ← known]
    split <;> simp [*]
  | delete name =>
    rw [change, delete, Change.Suits, ← known]
    split <;> simp [*]

/-- A change that succeeds concerns one name. -/
theorem get?_of_change (changed : m.change ch = .ok next) (other : String) :
    next.vars.get? other = if other = ch.name then ch.value? else m.vars.get? other := by
  cases ch <;> simp only [change, create, assign, delete] at changed <;> split at changed <;>
    first | contradiction | (obtain rfl := Except.ok.inj changed)
  · exact Table.get?_set ..
  · exact Table.get?_set ..
  · exact Table.get?_erase ..

end Memory

/-! ## Contexts -/

namespace Context

variable {c next : Context} {ch : Change} {d e : Disk} {name : String}

/-- The context with other variables, kept in the same way. -/
def withContents (c : Context) (m : Memory) : Context :=
  match c with
  | memory _ => memory m
  | file f => file { f with memory := m }
  | unreliable u => unreliable { u with memory := m }

@[simp] theorem contents_withContents (c : Context) (m : Memory) :
    (c.withContents m).contents = m := by
  cases c <;> rfl

/-- Everything that a context can answer: the value that it holds, or that it holds none, or that it
cannot be read. -/
theorem get_cases (c : Context) (name : String) :
    (∃ value, c.get name = .ok value ∧ c.contents.vars.get? name = some value) ∨
      (c.get name = .error (.unknownVariable name) ∧ c.contents.vars.get? name = none) ∨
      ∃ fault, c.get name = .error (.storage fault) := by
  have held (m : Memory) : (∃ value, m.get name = .ok value ∧ m.vars.get? name = some value) ∨
      (m.get name = .error (.unknownVariable name) ∧ m.vars.get? name = none) := by
    unfold Memory.get
    cases m.vars.get? name <;> simp
  cases c with
  | memory m => exact (held m).imp_right .inl
  | file f => exact (held f.memory).imp_right .inl
  | unreliable u =>
    by_cases unreadable : name ∈ u.unreadable
    · exact .inr (.inr ⟨_, if_pos unreadable⟩)
    · simp only [get, if_neg unreadable]
      exact (held u.memory).imp_right .inl

/-- Everything that a change can do: it is refused and the context stays, since the variables do not
admit it or the disk does not take them, or it is made. -/
theorem change_cases {answer : Except ContextError Unit}
    (changed : c.change ch d = (answer, next, e)) :
    (∃ refusal, answer = .error refusal ∧ next = c ∧
      (c.contents.change ch = .error refusal ∨ (∃ f, c = file f) ∧ refusal = .storage .disk)) ∨
      answer = .ok () ∧ ∃ m, c.contents.change ch = .ok m ∧ next = c.withContents m := by
  cases c with
  | memory m =>
    cases planned : m.change ch with
    | error refusal =>
      simp only [change, planned, Prod.mk.injEq] at changed
      exact .inl ⟨refusal, changed.1.symm, changed.2.1.symm, .inl planned⟩
    | ok made =>
      simp only [change, planned, Prod.mk.injEq] at changed
      exact .inr ⟨changed.1.symm, made, planned, changed.2.1.symm⟩
  | unreliable u =>
    cases planned : u.memory.change ch with
    | error refusal =>
      simp only [change, planned, Prod.mk.injEq] at changed
      exact .inl ⟨refusal, changed.1.symm, changed.2.1.symm, .inl planned⟩
    | ok made =>
      simp only [change, planned, Prod.mk.injEq] at changed
      exact .inr ⟨changed.1.symm, made, planned, changed.2.1.symm⟩
  | file f =>
    simp only [change, FileContext.change] at changed
    cases planned : f.memory.change ch with
    | error refusal =>
      simp only [planned, Prod.mk.injEq] at changed
      exact .inl ⟨refusal, changed.1.symm, changed.2.1.symm, .inl planned⟩
    | ok made =>
      rcases kept : FileContext.persist d f.path made with ⟨_ | _, after⟩ <;>
        simp only [planned, kept, Prod.mk.injEq] at changed
      · exact .inl ⟨_, changed.1.symm, changed.2.1.symm, .inr ⟨⟨f, rfl⟩, rfl⟩⟩
      · exact .inr ⟨changed.1.symm, made, planned, changed.2.1.symm⟩

/-- What is read of a name depends on the variable of that name alone. -/
theorem get_withContents {m : Memory} (same : m.vars.get? name = c.contents.vars.get? name) :
    (c.withContents m).get name = c.get name := by
  have read : m.get name = c.contents.get name := by simp only [Memory.get, same]
  cases c with
  | memory _ => exact read
  | file _ => exact read
  | unreliable u =>
    by_cases unreadable : name ∈ u.unreadable
    · simp [withContents, get, unreadable]
    · simpa [withContents, get, unreadable, contents] using read

/-- The read of a name does not fail; the name may be unknown. -/
def Reads (c : Context) (name : String) : Prop := ∀ fault, c.get name ≠ .error (.storage fault)

/-- Where a name can be read, it is read among the variables. -/
theorem get_eq_of_reads (reads : c.Reads name) : c.get name = c.contents.get name := by
  rcases c.get_cases name with ⟨value, answer, held⟩ | ⟨answer, held⟩ | ⟨fault, answer⟩
  · rw [answer, Memory.get, held]
  · rw [answer, Memory.get, held]
  · exact absurd answer (reads fault)

/-- Which names can be read does not depend on the variables. -/
theorem reads_withContents (reads : c.Reads name) (m : Memory) : (c.withContents m).Reads name := by
  have answers (m : Memory) (fault : StorageFault) : m.get name ≠ .error (.storage fault) := by
    unfold Memory.get
    cases m.vars.get? name <;> simp
  intro fault failed
  cases c with
  | memory _ => exact answers m fault failed
  | file _ => exact answers m fault failed
  | unreliable u =>
    by_cases unreadable : name ∈ u.unreadable
    · exact reads (.unreadable name) (if_pos unreadable)
    · exact answers m fault (by simpa [withContents, get, unreadable] using failed)

end Context

end StateMachines
