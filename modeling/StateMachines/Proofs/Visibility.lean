import StateMachines.Proofs.Writing

/-! # Which context an extent asks

Reading a name and finding the place of its variable are two searches of the same contexts. Both
stop at the first context that answers anything but that the name is unknown: a variable is read and
changed there, and an error is answered, whatever the contexts further out hold. What a search does
is said once, for contexts that are split at the one where it stops.
-/

namespace StateMachines

namespace Context

variable {c : Context} {name : String}

/-- The context answers that it has no variable of that name. -/
def lacks (c : Context) (name : String) : Bool :=
  match c.get name with
  | .error (.unknownVariable _) => true
  | _ => false

theorem lacks_iff : c.lacks name = true ↔ c.get name = .error (.unknownVariable name) := by
  unfold lacks
  rcases c.get_cases name with ⟨_, answer, -⟩ | ⟨answer, -⟩ | ⟨_, answer⟩ <;> simp [answer]

/-- A context that lacks a name holds no variable under it. -/
theorem not_mem_of_lacks (lacking : c.lacks name = true) : name ∉ c.contents.vars.names := by
  rw [lacks_iff] at lacking
  rcases c.get_cases name with ⟨_, answer, -⟩ | ⟨-, none⟩ | ⟨_, answer⟩
  · simp [lacking] at answer
  · exact (Table.get?_eq_none_iff ..).mp none
  · simp [lacking] at answer

/-- A context of which a value is read holds a variable of that name. -/
theorem mem_of_get {value : Value} (read : c.get name = .ok value) :
    name ∈ c.contents.vars.names := by
  rcases c.get_cases name with ⟨_, -, held⟩ | ⟨answer, -⟩ | ⟨_, answer⟩
  · rw [← Table.get?_isSome, held]
    rfl
  · simp [read] at answer
  · simp [read] at answer

/-- What is asked for the place of a variable agrees with what is read. -/
theorem contains_eq (c : Context) (name : String) :
    c.contains name = match c.get name with
      | .ok _ => .ok true
      | .error (.unknownVariable _) => .ok false
      | .error e => .error e := by
  have held (m : Memory) : Except.ok (m.contains name) = match m.get name with
      | .ok _ => .ok true
      | .error (.unknownVariable _) => .ok false
      | .error e => .error e := by
    rw [Memory.contains, Table.contains_eq_isSome, Memory.get]
    cases m.vars.get? name <;> rfl
  cases c with
  | memory m => exact held m
  | file f => exact held f.memory
  | unreliable u => rfl

theorem contains_of_lacks (lacking : c.lacks name = true) : c.contains name = .ok false := by
  simp [contains_eq, lacks_iff.mp lacking]

theorem contains_of_decides (decides : c.lacks name = false) :
    c.contains name = (c.get name).map fun _ => true := by
  unfold lacks at decides
  rw [contains_eq]
  split
  · next answer => simp [answer, Except.map]
  · next answer => simp [answer] at decides
  · next answer => simp [answer, Except.map]

end Context

namespace Extent

variable {x : Extent} {name : String} {inner outer rest : List Context} {c : Context} {d : Disk}

/-! ## The two searches -/

theorem getIn_append (lacking : ∀ b ∈ inner, b.lacks name = true) :
    getIn name (inner ++ rest) = getIn name rest := by
  induction inner with
  | nil => rfl
  | cons b inner ih =>
    obtain ⟨first, others⟩ := List.forall_mem_cons.mp lacking
    simp [getIn, Context.lacks_iff.mp first, ih others]

theorem getIn_cons (decides : c.lacks name = false) : getIn name (c :: rest) = c.get name := by
  unfold Context.lacks at decides
  rw [getIn]
  split
  · next answer => exact answer.symm
  · next answer => simp [answer] at decides
  · next answer => exact answer.symm

theorem positionIn_append (lacking : ∀ b ∈ inner, b.lacks name = true) :
    positionIn name (inner ++ rest) =
      (positionIn name rest).map fun place => place.map (· + inner.length) := by
  induction inner with
  | nil => cases found : positionIn name rest <;> simp [found, Except.map]
  | cons b inner ih =>
    obtain ⟨first, others⟩ := List.forall_mem_cons.mp lacking
    rw [List.cons_append, positionIn, Context.contains_of_lacks first]
    simp only [ih others]
    cases positionIn name rest <;>
      simp [Except.map, Function.comp_def, Nat.add_assoc]

theorem positionIn_cons (decides : c.lacks name = false) :
    positionIn name (c :: rest) = (c.get name).map fun _ => some 0 := by
  rw [positionIn, Context.contains_of_decides decides]
  cases c.get name <;> rfl

/-- A change of one context, on both sides of which the others stay. -/
def changeOf (inner : List Context) (c : Context) (outer : List Context) (ch : Change) (d : Disk) :
    Except ContextError Unit × Extent :=
  ((c.change ch d).1, ⟨inner ++ (c.change ch d).2.1 :: outer, (c.change ch d).2.2⟩)

theorem changeAt_eq (ch : Change) (d : Disk) :
    changeAt ⟨inner ++ c :: outer, d⟩ inner.length ch = changeOf inner c outer ch d := by
  have inside : changeIn ch inner.length (inner ++ c :: outer) d =
      ((c.change ch d).1, inner ++ (c.change ch d).2.1 :: outer, (c.change ch d).2.2) := by
    induction inner with
    | nil => rfl
    | cons b inner ih => rw [List.cons_append, List.length_cons, changeIn, ih]; rfl
  simp only [changeAt, inside, changeOf]

/-! ## Writing to one context -/

section Writing

variable {y : Extent} {ch : Change}

/-- A change has been made in one context, and all others are as they were. -/
def Rewrites (x y : Extent) (inner : List Context) (c : Context) (outer : List Context)
    (ch : Change) : Prop :=
  x.scopes = inner ++ c :: outer ∧ ∃ m, c.contents.change ch = .ok m ∧
    y.scopes = inner ++ c.withContents m :: outer

/-- Two extents differ in one context only, whose variables have been changed. -/
def DiffersIn (x y : Extent) (inner : List Context) (c : Context) (outer : List Context)
    (ch : Change) : Prop :=
  x.scopes = inner ++ c :: outer ∧ ∃ m, y.scopes = inner ++ c.withContents m :: outer ∧
    m.scope = c.scope ∧ ch.Makes c.contents.vars.entries m.vars.entries

theorem Rewrites.differsIn (rewrites : x.Rewrites y inner c outer ch) :
    x.DiffersIn y inner c outer ch := by
  obtain ⟨before, m, changed, after⟩ := rewrites
  exact ⟨before, m, after, Memory.makes_of_change changed⟩

/-- What a write to one context leaves: its variables are changed, and nothing else is; or its file
cannot be written, and everything stays. -/
def Writes (x : Extent) (inner : List Context) (c : Context) (outer : List Context) (ch : Change) :
    Except ContextError Unit × Extent → Prop
  | (.ok (), y) => x.DiffersIn y inner c outer ch
  | (.error e, y) => y.scopes = x.scopes ∧ (∃ f, c = .file f) ∧ e = .storage .disk

/-- Everything that a change of one context can do. -/
theorem changeOf_cases {answer : Except ContextError Unit} (split : x.scopes = inner ++ c :: outer)
    (changed : changeOf inner c outer ch d = (answer, y)) :
    (∃ refusal, answer = .error refusal ∧ y.scopes = x.scopes ∧
      (c.contents.change ch = .error refusal ∨ (∃ f, c = .file f) ∧ refusal = .storage .disk)) ∨
      answer = .ok () ∧ x.Rewrites y inner c outer ch := by
  rcases here : c.change ch d with ⟨done, next, after⟩
  rw [changeOf, here] at changed
  obtain ⟨rfl, rfl⟩ := Prod.mk.inj changed
  rcases Context.change_cases here with ⟨refusal, failed, rfl, why⟩ | ⟨made, m, planned, rfl⟩
  · exact .inl ⟨refusal, failed, split.symm, why⟩
  · exact .inr ⟨made, split, m, planned, rfl⟩

/-- A change that suits the variables of a context is written to it. -/
theorem writes_changeOf (split : x.scopes = inner ++ c :: outer) (suits : ch.Suits c.contents) :
    x.Writes inner c outer ch (changeOf inner c outer ch d) := by
  rcases ran : changeOf inner c outer ch d with ⟨answer, y⟩
  rcases changeOf_cases split ran with ⟨refusal, rfl, same, why⟩ | ⟨rfl, rewrites⟩
  · rcases why with unsuited | ⟨file, full⟩
    · obtain ⟨next, changed⟩ := Memory.exists_change_iff.mpr suits
      rw [changed] at unsuited
      cases unsuited
    · exact ⟨same, file, full⟩
  · exact rewrites.differsIn

end Writing

/-! ## Where a search stops -/

/-- The search for a name stops at a context: those before it lack the name, and it does not. -/
structure Stops (x : Extent) (name : String) (inner : List Context) (c : Context)
    (outer : List Context) : Prop where
  scopes : x.scopes = inner ++ c :: outer
  lacking : ∀ b ∈ inner, b.lacks name = true
  decides : c.lacks name = false

/-- All contexts lack a name, or the search for it stops at one of them. -/
theorem lacking_or_stops (x : Extent) (name : String) :
    (∀ c ∈ x.scopes, c.lacks name = true) ∨ ∃ inner c outer, x.Stops name inner c outer := by
  obtain ⟨scopes, d⟩ := x
  induction scopes with
  | nil => exact .inl (by simp)
  | cons c rest ih =>
    cases decides : c.lacks name with
    | false => exact .inr ⟨[], c, rest, rfl, by simp, decides⟩
    | true =>
      rcases ih with all | ⟨inner, b, outer, stops⟩
      · exact .inl (List.forall_mem_cons.mpr ⟨decides, all⟩)
      · obtain rfl : rest = inner ++ b :: outer := stops.scopes
        exact .inr ⟨c :: inner, b, outer, rfl, List.forall_mem_cons.mpr ⟨decides, stops.lacking⟩,
          stops.decides⟩

theorem get_of_lacking (lacking : ∀ c ∈ x.scopes, c.lacks name = true) :
    x.get name = .error (.unknownVariable name) := by
  rw [get, ← List.append_nil x.scopes, getIn_append lacking]
  rfl

theorem position_of_lacking (lacking : ∀ c ∈ x.scopes, c.lacks name = true) :
    x.position name = .ok none := by
  rw [position, ← List.append_nil x.scopes, positionIn_append lacking]
  rfl

/-- A new variable is created in the innermost context. -/
theorem create_eq {value : Value} (split : x.scopes = c :: outer) :
    x.create name value = changeOf [] c outer (.create name value) x.disk := by
  have first : x.changeAt 0 (.create name value) =
      changeOf [] c outer (.create name value) x.disk := by
    rw [← changeAt_eq, List.nil_append, ← split]
    rfl
  simp [create, isEmpty, split, first]

namespace Stops

theorem get (stops : x.Stops name inner c outer) : x.get name = c.get name := by
  rw [Extent.get, stops.scopes, getIn_append stops.lacking, getIn_cons stops.decides]

theorem position (stops : x.Stops name inner c outer) :
    x.position name = (c.get name).map fun _ => some inner.length := by
  rw [Extent.position, stops.scopes, positionIn_append stops.lacking, positionIn_cons stops.decides]
  cases c.get name <;> simp [Except.map]

theorem changeAt (stops : x.Stops name inner c outer) (ch : Change) :
    x.changeAt inner.length ch = changeOf inner c outer ch x.disk := by
  rw [← changeAt_eq, ← stops.scopes]

end Stops

/-! ## What an extent answers -/

/-- What an extent answers for a name that all its contexts lack. Only setting the name makes a
change: it creates the variable in the innermost context. -/
structure LeavesUnknown (x : Extent) (name : String) : Prop where
  get : x.get name = .error (.unknownVariable name)
  contains : x.contains name = .ok false
  assign (value : Value) : x.assign name value = (.error (.unknownVariable name), x)
  delete : x.delete name = (.error (.unknownVariable name), x)
  setNowhere : x.scopes = [] → ∀ value, x.set name value = (.error (.emptyExtent name), x)
  setInnermost : ∀ c outer, x.scopes = c :: outer → name ∉ c.contents.vars.names ∧
    ∀ value, x.set name value =
        placed .created (changeOf [] c outer (.create name value) x.disk) ∧
      x.Writes [] c outer (.create name value)
        (changeOf [] c outer (.create name value) x.disk)

/-- An extent answers an error to everything that is asked about a name, and stays. -/
structure Refuses (x : Extent) (name : String) (e : ContextError) : Prop where
  get : x.get name = .error e
  contains : x.contains name = .error e
  assign (value : Value) : x.assign name value = (.error e, x)
  delete : x.delete name = (.error e, x)
  set (value : Value) : x.set name value = (.error e, x)

/-- An extent reads a value of a name, and changes the variable in one context only. -/
structure Serves (x : Extent) (name : String) (value : Value) (inner : List Context) (c : Context)
    (outer : List Context) : Prop where
  get : x.get name = .ok value
  contains : x.contains name = .ok true
  assign (next : Value) : x.assign name next = changeOf inner c outer (.assign name next) x.disk
  delete : x.delete name = changeOf inner c outer (.delete name) x.disk
  set (next : Value) : x.set name next =
    placed .assigned (changeOf inner c outer (.assign name next) x.disk)
  assigned (next : Value) :
    x.Writes inner c outer (.assign name next) (changeOf inner c outer (.assign name next) x.disk)
  deleted : x.Writes inner c outer (.delete name) (changeOf inner c outer (.delete name) x.disk)

theorem leavesUnknown (lacking : ∀ c ∈ x.scopes, c.lacks name = true) :
    x.LeavesUnknown name where
  get := get_of_lacking lacking
  contains := by simp [contains, position_of_lacking lacking, Except.map]
  assign value := by simp [assign, changeVisible, position_of_lacking lacking]
  delete := by simp [delete, changeVisible, position_of_lacking lacking]
  setNowhere none value := by
    simp [set, position_of_lacking lacking, create, isEmpty, none, placed, Except.map]
  setInnermost c outer split := by
    have absent := Context.not_mem_of_lacks (lacking c (by simp [split]))
    refine ⟨absent, fun value => ⟨?_, writes_changeOf split absent⟩⟩
    simp [set, position_of_lacking lacking, create_eq split]

namespace Stops

theorem refuses {e : ContextError} (stops : x.Stops name inner c outer)
    (failed : c.get name = .error e) : x.Refuses name e := by
  have place : x.position name = .error e := by rw [stops.position, failed]; rfl
  refine ⟨by rw [stops.get, failed], ?_, fun value => ?_, ?_, fun value => ?_⟩
  · simp [Extent.contains, place, Except.map]
  · simp [Extent.assign, changeVisible, place]
  · simp [Extent.delete, changeVisible, place]
  · simp [Extent.set, place]

theorem serves {value : Value} (stops : x.Stops name inner c outer)
    (read : c.get name = .ok value) : x.Serves name value inner c outer := by
  have place : x.position name = .ok (some inner.length) := by rw [stops.position, read]; rfl
  have present : name ∈ c.contents.vars.names := Context.mem_of_get read
  refine ⟨by rw [stops.get, read], ?_, fun next => ?_, ?_, fun next => ?_,
    fun next => writes_changeOf stops.scopes present, writes_changeOf stops.scopes present⟩
  · simp [Extent.contains, place, Except.map]
  · simp [Extent.assign, changeVisible, place, stops.changeAt]
  · simp [Extent.delete, changeVisible, place, stops.changeAt]
  · simp [Extent.set, place, stops.changeAt]

end Stops

/-- Two extents that differ in their outer contexts answer the same and are changed in the same way,
and the outer contexts stay. -/
def AgreesInside {α : Type} (outer others : List Context)
    (done other : Except ContextError α × Extent) : Prop :=
  done.1 = other.1 ∧ done.2.disk = other.2.disk ∧
    ∃ inside, done.2.scopes = inside ++ outer ∧ other.2.scopes = inside ++ others

/-- Whatever an extent is asked about a name, another one answers and does the same, as far as the
contexts that stand outside in each of them do not matter. -/
structure ActsAlike (x y : Extent) (name : String) (outer others : List Context) : Prop where
  get : x.get name = y.get name
  contains : x.contains name = y.contains name
  assign (value : Value) : AgreesInside outer others (x.assign name value) (y.assign name value)
  delete : AgreesInside outer others (x.delete name) (y.delete name)
  set (value : Value) : AgreesInside outer others (x.set name value) (y.set name value)

/-- The contexts behind the one where a search stops do not matter. -/
theorem Stops.actsAlike (stops : x.Stops name inner c outer) (others : List Context) :
    x.ActsAlike ⟨inner ++ c :: others, x.disk⟩ name outer others := by
  have elsewhere : Stops ⟨inner ++ c :: others, x.disk⟩ name inner c others :=
    ⟨rfl, stops.lacking, stops.decides⟩
  have whole : x.scopes = (inner ++ [c]) ++ outer := by simp [stops.scopes]
  cases answer : c.get name with
  | error e =>
    have here := stops.refuses answer
    have there := elsewhere.refuses answer
    have stays {α : Type} : AgreesInside (α := α) outer others (.error e, x)
        (.error e, ⟨inner ++ c :: others, x.disk⟩) :=
      ⟨rfl, rfl, inner ++ [c], whole, by simp⟩
    refine ⟨by rw [here.get, there.get], by rw [here.contains, there.contains],
      fun value => ?_, ?_, fun value => ?_⟩
    · rw [here.assign, there.assign]
      exact stays
    · rw [here.delete, there.delete]
      exact stays
    · rw [here.set, there.set]
      exact stays
  | ok value =>
    have here := stops.serves answer
    have there := elsewhere.serves answer
    have changes (ch : Change) : AgreesInside outer others (changeOf inner c outer ch x.disk)
        (changeOf inner c others ch x.disk) :=
      ⟨rfl, rfl, inner ++ [(c.change ch x.disk).2.1], by simp [changeOf], by simp [changeOf]⟩
    refine ⟨by rw [here.get, there.get], by rw [here.contains, there.contains],
      fun next => ?_, ?_, fun next => ?_⟩
    · rw [here.assign, there.assign]
      exact changes _
    · rw [here.delete, there.delete]
      exact changes _
    · rw [here.set, there.set]
      obtain ⟨answers, disks, inside⟩ := changes (.assign name next)
      exact ⟨congrArg (Except.map fun _ => Placement.assigned) answers, disks, inside⟩

/-- If no context has a name, it is unknown, and setting it creates it innermost. Otherwise the
first context that does not answer that it is unknown decides alone: its error is the answer to
everything and nothing is changed, or its value is read and the variable is changed there and
nowhere else. The contexts further out never matter. -/
theorem first_decisive_scope (x : Extent) (name : String) :
    ((∀ c ∈ x.scopes, c.lacks name = true) ∧ x.LeavesUnknown name) ∨
      ∃ inner c outer, x.Stops name inner c outer ∧
        ((∃ e, c.get name = .error e ∧ x.Refuses name e) ∨
          ∃ value, c.get name = .ok value ∧ x.Serves name value inner c outer) ∧
        ∀ others, x.ActsAlike ⟨inner ++ c :: others, x.disk⟩ name outer others := by
  rcases x.lacking_or_stops name with lacking | ⟨inner, c, outer, stops⟩
  · exact .inl ⟨lacking, leavesUnknown lacking⟩
  · refine .inr ⟨inner, c, outer, stops, ?_, stops.actsAlike⟩
    cases answer : c.get name with
    | error e => exact .inl ⟨e, rfl, stops.refuses answer⟩
    | ok value => exact .inr ⟨value, rfl, stops.serves answer⟩

end Extent

end StateMachines
