import StateMachines.Proofs.Changing
import StateMachines.Proofs.Restoration

/-! # The history of a context

What a context holds can be told from the changes that were made of it, without the context. A name
is there if it was deleted no more since it was last created; the names stand in the order in which
they were last created, and each holds what it was last given. The induction is on the changes, and
what one change makes of the variables is known from `Change.Makes`.
-/

namespace StateMachines

namespace Memory

/-- Make a change; one that is refused leaves the context as it is. -/
def perform (m : Memory) (ch : Change) : Except ContextError Unit × Memory :=
  match m.change ch with
  | .ok next => (.ok (), next)
  | .error e => (.error e, m)

/-- Make changes one after the other. -/
def performAll (m : Memory) (changes : List Change) : Memory :=
  changes.foldl (fun m ch => (m.perform ch).2) m

/-- Those of some changes that are made when all are tried one after the other, in order. -/
def made (m : Memory) : List Change → List Change
  | [] => []
  | ch :: rest =>
    match m.perform ch with
    | (.ok (), next) => ch :: next.made rest
    | (.error _, next) => next.made rest

end Memory

/-! ## What a history tells -/

namespace Change

/-- The change creates a variable of the name. -/
def Creates (name : String) (ch : Change) : Prop := ∃ value, ch = create name value

/-- The change gives the variable of the name a value. -/
def Sets (name : String) (ch : Change) : Prop :=
  ∃ value, ch = create name value ∨ ch = assign name value

theorem not_creates {name : String} {ch : Change} (apart : name ≠ ch.name) :
    ¬ ch.Creates name := by
  rintro ⟨value, rfl⟩
  exact apart rfl

theorem not_sets {name : String} {ch : Change} (apart : name ≠ ch.name) : ¬ ch.Sets name := by
  rintro ⟨value, rfl | rfl⟩
  · exact apart rfl
  · exact apart rfl

end Change

/-- The changes that were made of a context, oldest first. -/
abbrev History := List Change

namespace History

variable {h : History} {ch last : Change} {name other : String} {value : Value} {i : Nat}
  {before after : List (String × Value)}

/-- The last change of a kind stands at a position. -/
structure LastAt (h : History) (kind : Change → Prop) (i : Nat) (last : Change) : Prop where
  found : h[i]? = some last
  isKind : kind last
  final : ∀ j later, i < j → h[j]? = some later → ¬ kind later

/-- The name was created, and has not been deleted since it was created last. -/
def Live (h : History) (name : String) : Prop :=
  ∃ i last, h.LastAt (Change.Creates name) i last ∧ ∀ j, i < j → h[j]? ≠ some (.delete name)

/-- One name was created last before another one was. -/
def CreatedBefore (h : History) (name other : String) : Prop :=
  ∃ i j first second, h.LastAt (Change.Creates name) i first ∧
    h.LastAt (Change.Creates other) j second ∧ i < j

/-- The value that the name was given last. -/
def Holds (h : History) (name : String) (value : Value) : Prop :=
  ∃ i last, h.LastAt (Change.Sets name) i last ∧ last.value? = some value

/-- Names with values are what a history tells: the live names, each once, in the order in which
they were created last, with the value that each was given last. -/
structure Recounts (h : History) (entries : List (String × Value)) : Prop where
  listed : ∀ name, name ∈ entries.map Prod.fst ↔ h.Live name
  distinct : (entries.map Prod.fst).Nodup
  ordered : (entries.map Prod.fst).Pairwise h.CreatedBefore
  holds : ∀ entry ∈ entries, h.Holds entry.1 entry.2

/-! ## One more change -/

/-- What stands at a position after one more change stood there before, or is that change. -/
theorem getElem?_concat_eq_some_iff :
    (h ++ [ch])[i]? = some last ↔ h[i]? = some last ∨ i = h.length ∧ last = ch := by
  rcases Nat.lt_trichotomy i h.length with inside | rfl | beyond
  · simp [List.getElem?_append_left inside, Nat.ne_of_lt inside]
  · simp [eq_comm]
  · have outside : (h ++ [ch]).length ≤ i := by
      rw [List.length_append]
      exact beyond
    simp [List.getElem?_eq_none outside, List.getElem?_eq_none (Nat.le_of_lt beyond),
      Nat.ne_of_gt beyond]

theorem lt_length (found : h[i]? = some last) : i < h.length :=
  (List.getElem?_eq_some_iff.mp found).1

/-- The last change of a kind, after one more change, is that change if it is of the kind, or else
the one that it was before. -/
theorem lastAt_concat {kind : Change → Prop} :
    (h ++ [ch]).LastAt kind i last ↔
      kind ch ∧ i = h.length ∧ last = ch ∨ ¬ kind ch ∧ h.LastAt kind i last := by
  constructor
  · rintro ⟨found, isKind, final⟩
    rcases getElem?_concat_eq_some_iff.mp found with found | ⟨rfl, rfl⟩
    · refine .inr ⟨?_, found, isKind, fun j later behind held => ?_⟩
      · exact final h.length ch (lt_length found)
          (getElem?_concat_eq_some_iff.mpr (.inr ⟨rfl, rfl⟩))
      · exact final j later behind (getElem?_concat_eq_some_iff.mpr (.inl held))
    · exact .inl ⟨isKind, rfl, rfl⟩
  · rintro (⟨isKind, rfl, rfl⟩ | ⟨notKind, found, isKind, final⟩)
    · refine ⟨getElem?_concat_eq_some_iff.mpr (.inr ⟨rfl, rfl⟩), isKind, ?_⟩
      intro j later behind held
      rcases getElem?_concat_eq_some_iff.mp held with held | ⟨rfl, -⟩
      · exact absurd (lt_length held) (Nat.not_lt_of_lt behind)
      · exact absurd behind (Nat.lt_irrefl _)
    · refine ⟨getElem?_concat_eq_some_iff.mpr (.inl found), isKind, ?_⟩
      intro j later behind held
      rcases getElem?_concat_eq_some_iff.mp held with held | ⟨-, rfl⟩
      · exact final j later behind held
      · exact notKind

/-- A name is live after a change that creates it, and after any other but its deletion if it was
live before. -/
theorem live_concat :
    (h ++ [ch]).Live name ↔ ch.Creates name ∨ h.Live name ∧ ch ≠ .delete name := by
  constructor
  · rintro ⟨i, last, whole, kept⟩
    rcases lastAt_concat.mp whole with ⟨creates, -, -⟩ | ⟨-, stands⟩
    · exact .inl creates
    · refine .inr ⟨⟨i, last, stands, fun j behind held => ?_⟩, ?_⟩
      · exact kept j behind (getElem?_concat_eq_some_iff.mpr (.inl held))
      · rintro rfl
        exact kept h.length (lt_length stands.found)
          (getElem?_concat_eq_some_iff.mpr (.inr ⟨rfl, rfl⟩))
  · by_cases creates : ch.Creates name
    · intro _
      refine ⟨h.length, ch, lastAt_concat.mpr (.inl ⟨creates, rfl, rfl⟩), fun j behind held => ?_⟩
      rcases getElem?_concat_eq_some_iff.mp held with held | ⟨rfl, -⟩
      · exact absurd (lt_length held) (Nat.not_lt_of_lt behind)
      · exact absurd behind (Nat.lt_irrefl _)
    · rintro (again | ⟨⟨i, last, stands, kept⟩, notDeleted⟩)
      · exact absurd again creates
      · refine ⟨i, last, lastAt_concat.mpr (.inr ⟨creates, stands⟩), fun j behind held => ?_⟩
        rcases getElem?_concat_eq_some_iff.mp held with held | ⟨-, same⟩
        · exact kept j behind held
        · exact notDeleted same.symm

/-- Names keep their order while neither is created again. -/
theorem CreatedBefore.concat (ordered : h.CreatedBefore name other) (apart : ¬ ch.Creates name)
    (apart' : ¬ ch.Creates other) : (h ++ [ch]).CreatedBefore name other := by
  obtain ⟨i, j, first, second, stands, stands', before⟩ := ordered
  exact ⟨i, j, first, second, lastAt_concat.mpr (.inr ⟨apart, stands⟩),
    lastAt_concat.mpr (.inr ⟨apart', stands'⟩), before⟩

/-- A name that is created comes after all that are live. -/
theorem Live.createdBefore (live : h.Live other) (apart : ¬ ch.Creates other)
    (creates : ch.Creates name) : (h ++ [ch]).CreatedBefore other name := by
  obtain ⟨i, last, stands, -⟩ := live
  exact ⟨i, h.length, last, ch, lastAt_concat.mpr (.inr ⟨apart, stands⟩),
    lastAt_concat.mpr (.inl ⟨creates, rfl, rfl⟩), lt_length stands.found⟩

theorem Holds.concat (holds : h.Holds name value) (apart : ¬ ch.Sets name) :
    (h ++ [ch]).Holds name value := by
  obtain ⟨i, last, stands, given⟩ := holds
  exact ⟨i, last, lastAt_concat.mpr (.inr ⟨apart, stands⟩), given⟩

theorem holds_of_sets (sets : ch.Sets name) (given : ch.value? = some value) :
    (h ++ [ch]).Holds name value :=
  ⟨h.length, ch, lastAt_concat.mpr (.inl ⟨sets, rfl, rfl⟩), given⟩

/-! ## What a change adds to a history -/

/-- In entries under distinct names no other one has the name of an entry in the middle. -/
private theorem ne_of_nodup_middle {front back : List (String × Value)} {old : Value}
    (distinct : ((front ++ (name, old) :: back).map Prod.fst).Nodup) :
    ∀ other ∈ (front ++ back).map Prod.fst, other ≠ name := by
  rw [List.map_append, List.map_cons, List.nodup_middle, List.nodup_cons, ← List.map_append]
    at distinct
  rintro other member rfl
  exact distinct.1 member

theorem Recounts.create (recounts : h.Recounts before) (new : name ∉ before.map Prod.fst) :
    (h ++ [Change.create name value]).Recounts (before ++ [(name, value)]) := by
  obtain ⟨listed, distinct, ordered, holds⟩ := recounts
  have creates : (Change.create name value).Creates name := ⟨value, rfl⟩
  have apart {other : String} (member : other ∈ before.map Prod.fst) : other ≠ name := by
    rintro rfl
    exact new member
  refine ⟨fun other => ?_, ?_, ?_, ?_⟩
  · rw [live_concat, ← listed]
    simp [Change.Creates, or_comm, eq_comm]
  · rw [List.map_append, List.nodup_append]
    refine ⟨distinct, List.nodup_singleton _, ?_⟩
    rintro other member _ last rfl
    exact apart member (List.mem_singleton.mp last)
  · -- Those that were there keep their order, and the new one comes after each of them.
    rw [List.map_append, List.pairwise_append]
    refine ⟨ordered.imp_of_mem ?_, List.pairwise_singleton .., ?_⟩
    · intro first second member member' earlier
      exact earlier.concat (Change.not_creates (apart member)) (Change.not_creates (apart member'))
    · intro other member _ last
      obtain rfl := List.mem_singleton.mp last
      exact ((listed other).mp member).createdBefore (Change.not_creates (apart member)) creates
  · intro entry member
    rcases List.mem_append.mp member with member | last
    · exact (holds entry member).concat (Change.not_sets (apart (List.mem_map_of_mem member)))
    · obtain rfl := List.mem_singleton.mp last
      exact holds_of_sets ⟨value, .inl rfl⟩ rfl

theorem Recounts.assign {front back : List (String × Value)} {old : Value}
    (recounts : h.Recounts (front ++ (name, old) :: back)) :
    (h ++ [Change.assign name value]).Recounts (front ++ (name, value) :: back) := by
  obtain ⟨listed, distinct, ordered, holds⟩ := recounts
  have names : (front ++ (name, value) :: back).map Prod.fst =
      (front ++ (name, old) :: back).map Prod.fst := by simp
  have notCreates (other : String) : ¬ (Change.assign name value).Creates other := by
    rintro ⟨_, other⟩
    cases other
  refine ⟨fun other => ?_, names ▸ distinct, ?_, ?_⟩
  · rw [names, listed, live_concat]
    simp [notCreates other]
  · rw [names]
    exact ordered.imp fun earlier => earlier.concat (notCreates _) (notCreates _)
  · intro entry member
    have apart := ne_of_nodup_middle distinct entry.1
    rw [List.mem_append, List.mem_cons] at member
    rcases member with inFront | rfl | inBack
    · exact (holds entry (by simp [inFront])).concat
        (Change.not_sets (apart (List.mem_map_of_mem (by simp [inFront]))))
    · exact holds_of_sets ⟨value, .inr rfl⟩ rfl
    · exact (holds entry (by simp [inBack])).concat
        (Change.not_sets (apart (List.mem_map_of_mem (by simp [inBack]))))

theorem Recounts.delete {front back : List (String × Value)} {old : Value}
    (recounts : h.Recounts (front ++ (name, old) :: back)) :
    (h ++ [Change.delete name]).Recounts (front ++ back) := by
  obtain ⟨listed, distinct, ordered, holds⟩ := recounts
  have apart := ne_of_nodup_middle distinct
  have fewer : (front ++ back).Sublist (front ++ (name, old) :: back) :=
    (List.sublist_cons_self ..).append_left front
  have notCreates (other : String) : ¬ (Change.delete name).Creates other := by
    rintro ⟨_, other⟩
    cases other
  refine ⟨fun other => ?_, distinct.sublist (fewer.map _), ?_, ?_⟩
  · have whole : other ∈ (front ++ (name, old) :: back).map Prod.fst ↔
        other = name ∨ other ∈ (front ++ back).map Prod.fst := by
      simp [or_left_comm]
    rw [live_concat, ← listed, whole]
    constructor
    · intro member
      refine .inr ⟨.inr member, ?_⟩
      rintro same
      exact apart other member (Change.delete.inj same).symm
    · rintro (creates | ⟨rfl | member, kept⟩)
      · exact absurd creates (notCreates other)
      · exact absurd rfl kept
      · exact member
  · exact (ordered.sublist (fewer.map _)).imp fun earlier =>
      earlier.concat (notCreates _) (notCreates _)
  · intro entry member
    exact (holds entry (fewer.subset member)).concat
      (Change.not_sets (apart entry.1 (List.mem_map_of_mem member)))

/-- What a change makes of variables is what it adds to their history. -/
theorem Recounts.concat (recounts : h.Recounts before) (makes : ch.Makes before after) :
    (h ++ [ch]).Recounts after := by
  cases makes with
  | create value new => exact recounts.create new
  | assign front name old value back => exact recounts.assign
  | delete front name old back => exact recounts.delete

/-- Nothing is there before the first change. -/
theorem recounts_nil : Recounts [] [] := by
  refine ⟨fun name => ?_, .nil, .nil, by simp⟩
  simp only [List.map_nil, List.not_mem_nil, false_iff]
  rintro ⟨i, last, stands, -⟩
  exact absurd (lt_length stands.found) (Nat.not_lt_zero i)

end History

/-! ## Runs -/

/-- A variable without its scope. -/
def Variable.entry (v : Variable) : String × Value := (v.name, v.value)

namespace Memory

variable {m : Memory} {h : History} {scope : Scope}

theorem map_entry_list (m : Memory) : m.list.map Variable.entry = m.vars.entries := by
  simp [list, Function.comp_def, Variable.entry]

/-- A context in use is changed as it is told here, whatever the disk. -/
theorem change_memory (m : Memory) (ch : Change) (d : Disk) :
    (Context.memory m).change ch d = ((m.perform ch).1, .memory (m.perform ch).2, d) := by
  rw [Context.change, perform]
  cases m.change ch <;> rfl

theorem create_eq_error_iff {name : String} {value : Value} {e : ContextError} :
    m.create name value = .error e ↔ name ∈ m.vars.names ∧ e = .variableExists name m.scope := by
  rw [create, contains, ← Table.contains_iff]
  split
  · next present => simp [present, eq_comm]
  · next absent => simp [absent]

theorem assign_eq_error_iff {name : String} {value : Value} {e : ContextError} :
    m.assign name value = .error e ↔ name ∉ m.vars.names ∧ e = .unknownVariable name := by
  rw [assign, contains, ← Table.contains_iff]
  split
  · next present => simp [present]
  · next absent => simp [absent, eq_comm]

theorem delete_eq_error_iff {name : String} {e : ContextError} :
    m.delete name = .error e ↔ name ∉ m.vars.names ∧ e = .unknownVariable name := by
  rw [delete, contains, ← Table.contains_iff]
  split
  · next present => simp [present]
  · next absent => simp [absent, eq_comm]

theorem get_eq_error_iff {name : String} {e : ContextError} :
    m.get name = .error e ↔ name ∉ m.vars.names ∧ e = .unknownVariable name := by
  rw [get, ← Table.get?_eq_none_iff]
  cases m.vars.get? name <;> simp [eq_comm]

/-- After any changes the variables are what the history tells that has those which were made
added. -/
theorem recounts_performAll (changes : List Change) (recounts : h.Recounts m.vars.entries) :
    (h ++ m.made changes).Recounts (m.performAll changes).vars.entries ∧
      (m.performAll changes).scope = m.scope := by
  induction changes generalizing m h with
  | nil => simpa [made, performAll] using recounts
  | cons ch rest ih =>
    cases planned : m.change ch with
    | error refusal =>
      have stays : m.perform ch = (.error refusal, m) := by rw [perform, planned]
      simpa [made, performAll, stays] using ih recounts
    | ok next =>
      have moves : m.perform ch = (.ok (), next) := by rw [perform, planned]
      obtain ⟨scope, makes⟩ := makes_of_change planned
      have later := ih (recounts.concat makes)
      rw [scope] at later
      simpa [made, performAll, moves] using later

/-- A context follows from the changes that were made of it: its variables are what they tell, and
they tell which calls fail, and how. A call that fails leaves the context, and one that succeeds
puts a new variable at the end, gives one another value in its place, or closes the gap of one. -/
structure Follows (m : Memory) (scope : Scope) (h : History) : Prop where
  recounts : h.Recounts (m.list.map Variable.entry)
  tagged : ∀ v ∈ m.list, v.scope = scope
  create : ∀ name value e,
    m.create name value = .error e ↔ h.Live name ∧ e = .variableExists name scope
  assign : ∀ name value e,
    m.assign name value = .error e ↔ ¬ h.Live name ∧ e = .unknownVariable name
  delete : ∀ name e, m.delete name = .error e ↔ ¬ h.Live name ∧ e = .unknownVariable name
  get : ∀ name e, m.get name = .error e ↔ ¬ h.Live name ∧ e = .unknownVariable name
  refused : ∀ ch e d, m.change ch = .error e →
    (Context.memory m).change ch d = (.error e, .memory m, d)
  made : ∀ ch next, m.change ch = .ok next →
    ch.Makes (m.list.map Variable.entry) (next.list.map Variable.entry)

/-- A context that begins empty follows, after any calls, from those that succeeded. -/
theorem performAll_follows (scope : Scope) (calls : List Change) :
    ((empty scope).performAll calls).Follows scope ((empty scope).made calls) := by
  obtain ⟨recounts, sameScope⟩ := recounts_performAll (m := empty scope) calls History.recounts_nil
  rw [List.nil_append] at recounts
  have listed (name : String) := recounts.listed name
  generalize (empty scope).performAll calls = m at *
  generalize (empty scope).made calls = h at *
  change m.scope = scope at sameScope
  refine ⟨by rwa [map_entry_list], ?_, ?_, ?_, ?_, ?_, ?_, ?_⟩
  · exact fun v member => sameScope ▸ scope_of_mem_list member
  · intro name value e
    rw [create_eq_error_iff, sameScope, ← listed]
    rfl
  · intro name value e
    rw [assign_eq_error_iff, ← listed]
    rfl
  · intro name e
    rw [delete_eq_error_iff, ← listed]
    rfl
  · intro name e
    rw [get_eq_error_iff, ← listed]
    rfl
  · intro ch e d refused
    rw [change_memory, perform, refused]
  · intro ch next changed
    rw [map_entry_list, map_entry_list]
    exact (makes_of_change changed).2

/-- A name that is created again goes to the end, and one that is assigned stays. -/
example :
    ((empty .machineLocal).performAll [.create "a" .null, .create "b" .null, .delete "a",
      .create "b" (.bool true), .create "a" (.integer 1), .assign "b" (.integer 2)]).list =
      [⟨"b", .integer 2, .machineLocal⟩, ⟨"a", .integer 1, .machineLocal⟩] := by
  decide

end Memory

end StateMachines
