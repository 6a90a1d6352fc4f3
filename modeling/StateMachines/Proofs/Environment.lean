import Mathlib.Data.List.Forall2
import StateMachines.Proofs.Changing
import StateMachines.Proofs.Restoration

/-! # The environment of an extent

Contexts that can be read and listed show one environment: each name with the value that the
innermost context holds under it. Listing the variables enumerates it, reading a name looks it up,
and a change of a name that succeeds moves it at that name alone. The first two are shown of the
contexts by induction from the inside; the third follows from what a change makes of one context.
-/

namespace StateMachines

namespace Context

variable {c : Context} {name : String}

/-- The context is kept in memory or in a file, so that its variables can be read and listed. -/
def isReliable : Context → Bool
  | unreliable _ => false
  | _ => true

theorem get_of_isReliable (reliable : c.isReliable = true) (name : String) :
    c.get name = c.contents.get name := by
  cases c with
  | memory | file => rfl
  | unreliable => cases reliable

theorem list_of_isReliable (reliable : c.isReliable = true) : c.list = .ok c.contents.list := by
  cases c with
  | memory | file => rfl
  | unreliable => cases reliable

theorem reads_of_isReliable (reliable : c.isReliable = true) (name : String) : c.Reads name := by
  intro fault
  rw [get_of_isReliable reliable, Memory.get]
  cases c.contents.vars.get? name <;> simp

/-- A context that can be read lacks the names that it does not hold. -/
theorem lacks_iff_of_isReliable (reliable : c.isReliable = true) :
    c.lacks name = true ↔ name ∉ c.contents.vars.names := by
  rw [lacks_iff, get_of_isReliable reliable, Memory.get, ← Table.get?_eq_none_iff]
  cases c.contents.vars.get? name <;> simp

@[simp] theorem isReliable_withContents (c : Context) (m : Memory) :
    (c.withContents m).isReliable = c.isReliable := by
  cases c <;> rfl

end Context

theorem Memory.mem_list_iff {m : Memory} {v : Variable} :
    v ∈ m.list ↔ m.vars.get? v.name = some v.value ∧ v.scope = m.scope := by
  obtain ⟨name, value, scope⟩ := v
  rw [Table.get?_eq_some_iff]
  constructor
  · intro member
    obtain ⟨⟨key, held⟩, inside, same⟩ := List.mem_map.mp member
    obtain ⟨rfl, rfl, rfl⟩ := Variable.mk.inj same
    exact ⟨inside, rfl⟩
  · rintro ⟨inside, rfl⟩
    exact List.mem_map_of_mem inside

namespace Extent

variable {x y : Extent} {name : String} {scopes inner outer : List Context} {c : Context}

/-- The contexts of an extent can all be read and listed. -/
def IsReliable (x : Extent) : Prop := ∀ c ∈ x.scopes, c.isReliable = true

/-- A context is the first one that holds a name. -/
structure FirstHolds (scopes : List Context) (name : String) (inner : List Context) (c : Context)
    (outer : List Context) : Prop where
  split : scopes = inner ++ c :: outer
  absent : ∀ b ∈ inner, name ∉ b.contents.vars.names
  present : name ∈ c.contents.vars.names

theorem not_firstHolds (absent : ∀ b ∈ scopes, name ∉ b.contents.vars.names) :
    ¬ FirstHolds scopes name inner c outer := by
  rintro ⟨rfl, -, present⟩
  exact absent c (by simp) present

/-- The search for a name in contexts that can be read stops at the first that holds it. -/
theorem Stops.firstHolds (reliable : x.IsReliable) (stops : x.Stops name inner c outer) :
    FirstHolds x.scopes name inner c outer ∧ ∃ value, c.get name = .ok value := by
  have kept (b : Context) (member : b ∈ inner ++ c :: outer) : b.isReliable = true :=
    reliable b (stops.scopes ▸ member)
  have absent : ∀ b ∈ inner, name ∉ b.contents.vars.names := fun b member =>
    (Context.lacks_iff_of_isReliable (kept b (by simp [member]))).mp (stops.lacking b member)
  rcases c.get_cases name with ⟨value, read, -⟩ | ⟨unknown, -⟩ | ⟨fault, failed⟩
  · exact ⟨⟨stops.scopes, absent, Context.mem_of_get read⟩, value, read⟩
  · have decides := stops.decides
    rw [Context.lacks_iff.mpr unknown] at decides
    cases decides
  · exact absurd failed (Context.reads_of_isReliable (kept c (by simp)) name fault)

/-- The variable of a name in the first context that holds it. -/
def innermost? (name : String) : List Context → Option Variable
  | [] => none
  | c :: rest =>
    match c.contents.vars.get? name with
    | some value => some ⟨name, value, c.scope⟩
    | none => innermost? name rest

/-- A variable is the innermost of its name if the first context has it, or lacks its name and the
others have it. -/
theorem innermost?_cons_iff {v : Variable} : innermost? v.name (c :: scopes) = some v ↔
    v ∈ c.contents.list ∨
      v.name ∉ c.contents.vars.names ∧ innermost? v.name scopes = some v := by
  rw [innermost?, Memory.mem_list_iff, ← Table.get?_eq_none_iff]
  obtain ⟨name, value, scope⟩ := v
  cases c.contents.vars.get? name with
  | none => simp
  | some held =>
    simp only [Option.some.injEq, Variable.mk.injEq, true_and, reduceCtorEq, false_and, or_false]
    exact and_congr_right fun _ => eq_comm

/-- The innermost variable of its name has the value that is read, and the tag of the first context
that holds the name. -/
theorem exists_firstHolds {v : Variable} (found : innermost? v.name scopes = some v) :
    ∃ inner c outer, FirstHolds scopes v.name inner c outer ∧ v.scope = c.scope := by
  induction scopes with
  | nil => cases found
  | cons c rest ih =>
    rcases innermost?_cons_iff.mp found with here | ⟨absent, later⟩
    · obtain ⟨held, tag⟩ := Memory.mem_list_iff.mp here
      have present : v.name ∈ c.contents.vars.names := by
        rw [← Table.get?_isSome, held]
        rfl
      exact ⟨[], c, rest, ⟨rfl, by simp, present⟩, tag⟩
    · obtain ⟨inner, b, outer, ⟨split, before, present⟩, tag⟩ := ih later
      exact ⟨c :: inner, b, outer,
        ⟨by simp [split], List.forall_mem_cons.mpr ⟨absent, before⟩, present⟩, tag⟩

/-- The first context that holds a name determines its innermost variable. -/
theorem FirstHolds.innermost? (first : FirstHolds scopes name inner c outer) :
    ∃ value, innermost? name scopes = some ⟨name, value, c.scope⟩ := by
  obtain ⟨rfl, absent, present⟩ := first
  induction inner with
  | nil =>
    obtain ⟨value, held⟩ := Option.isSome_iff_exists.mp ((Table.get?_isSome ..).mpr present)
    exact ⟨value, by simp [Extent.innermost?, held]⟩
  | cons b inner ih =>
    obtain ⟨here, later⟩ := List.forall_mem_cons.mp absent
    obtain ⟨value, found⟩ := ih later
    exact ⟨value, by simp [Extent.innermost?, (Table.get?_eq_none_iff ..).mpr here, found]⟩

theorem getIn_eq (reliable : ∀ c ∈ scopes, c.isReliable = true) :
    getIn name scopes = match innermost? name scopes with
      | some v => .ok v.value
      | none => .error (.unknownVariable name) := by
  induction scopes with
  | nil => rfl
  | cons c rest ih =>
    obtain ⟨first, others⟩ := List.forall_mem_cons.mp reliable
    rw [getIn, Context.get_of_isReliable first, Memory.get, innermost?]
    cases c.contents.vars.get? name with
    | some value => rfl
    | none => exact ih others

/-- The variables of a context whose names have not been seen further in. -/
def fresh (seen : List String) (c : Context) : List Variable :=
  c.contents.list.filter fun v => v.name ∉ seen

@[simp] theorem mem_fresh {seen : List String} {v : Variable} :
    v ∈ fresh seen c ↔ v ∈ c.contents.list ∧ v.name ∉ seen := by
  simp [fresh]

theorem fresh_sublist (seen : List String) (c : Context) :
    (fresh seen c).Sublist c.contents.list :=
  List.filter_sublist

theorem mem_names_fresh {seen : List String} :
    name ∈ (fresh seen c).map Variable.name ↔ name ∈ c.contents.vars.names ∧ name ∉ seen := by
  rw [← Memory.names_list]
  simp only [List.mem_map, mem_fresh]
  constructor
  · rintro ⟨v, ⟨member, unseen⟩, rfl⟩
    exact ⟨⟨v, member, rfl⟩, unseen⟩
  · rintro ⟨⟨v, member, rfl⟩, unseen⟩
    exact ⟨v, ⟨member, unseen⟩, rfl⟩

theorem nodup_names_fresh (seen : List String) (c : Context) :
    ((fresh seen c).map Variable.name).Nodup := by
  apply ((fresh_sublist seen c).map Variable.name).nodup
  rw [Memory.names_list]
  exact c.contents.vars.names_nodup

theorem visibleIn_cons {seen : List String} {vars : List Variable}
    (reliable : c.isReliable = true)
    (listed : visibleIn ((fresh seen c).map Variable.name ++ seen) scopes = .ok vars) :
    visibleIn seen (c :: scopes) = .ok (fresh seen c ++ vars) := by
  simp only [visibleIn, Context.list_of_isReliable reliable]
  rw [← fresh, listed]

/-- Listing passes over the names that have been seen, and finds of every other name the innermost
variable. -/
theorem exists_visibleIn (reliable : ∀ c ∈ scopes, c.isReliable = true) (seen : List String) :
    ∃ vars, visibleIn seen scopes = .ok vars ∧
      (∀ v, v ∈ vars ↔ v.name ∉ seen ∧ innermost? v.name scopes = some v) ∧
      (vars.map Variable.name).Nodup ∧
      ∃ parts, vars = parts.flatten ∧
        List.Forall₂ (fun part (c : Context) => part.Sublist c.contents.list) parts scopes := by
  induction scopes generalizing seen with
  | nil => exact ⟨[], rfl, by simp [innermost?], .nil, [], rfl, .nil⟩
  | cons c rest ih =>
    obtain ⟨first, others⟩ := List.forall_mem_cons.mp reliable
    obtain ⟨vars, listed, members, distinct, parts, whole, inOrder⟩ :=
      ih others ((fresh seen c).map Variable.name ++ seen)
    refine ⟨fresh seen c ++ vars, visibleIn_cons first listed, fun v => ?_, ?_,
      fresh seen c :: parts, by simp [whole], .cons (fresh_sublist seen c) inOrder⟩
    · rw [List.mem_append, mem_fresh, members, innermost?_cons_iff, List.mem_append, not_or,
        mem_names_fresh, not_and_or, not_not]
      tauto
    · rw [List.map_append, List.nodup_append]
      refine ⟨nodup_names_fresh seen c, distinct, ?_⟩
      rintro name here _ there rfl
      obtain ⟨v, member, rfl⟩ := List.mem_map.mp there
      exact ((members v).mp member).1 (List.mem_append_left _ here)

/-- The variables of a list are the environment of an extent: they are those that are read, each
name stands once, and they come context by context, in each as they were created. -/
structure Lists (x : Extent) (vars : List Variable) : Prop where
  mem_iff (v : Variable) : v ∈ vars ↔ x.get v.name = .ok v.value ∧
    ∃ inner c outer, FirstHolds x.scopes v.name inner c outer ∧ v.scope = c.scope
  distinct : (vars.map Variable.name).Nodup
  ordered : ∃ parts, vars = parts.flatten ∧
    List.Forall₂ (fun part (c : Context) => part.Sublist c.contents.list) parts x.scopes

/-- The variables of an extent whose contexts can be listed show its environment. -/
theorem exists_list (reliable : x.IsReliable) : ∃ vars, x.list = .ok vars ∧ x.Lists vars := by
  obtain ⟨vars, listed, members, distinct, ordered⟩ := exists_visibleIn reliable []
  refine ⟨vars, listed, fun v => ?_, distinct, ordered⟩
  rw [members, get, getIn_eq reliable]
  constructor
  · rintro ⟨-, found⟩
    exact ⟨by rw [found], exists_firstHolds found⟩
  · rintro ⟨read, inner, c, outer, first, tag⟩
    obtain ⟨value, found⟩ := first.innermost?
    rw [found] at read
    obtain rfl : value = v.value := Except.ok.inj read
    rw [← tag] at found
    exact ⟨List.not_mem_nil, found⟩

end Extent

/-! ## Requests -/

/-- What an extent may be asked to change. -/
inductive Extent.Request
  | create (name : String) (value : Value)
  | assign (name : String) (value : Value)
  | delete (name : String)
  | set (name : String) (value : Value)
deriving DecidableEq, Repr

/-- The variable that a request is about. -/
def Extent.Request.name : Request → String
  | create name _ | assign name _ | delete name | set name _ => name

/-- What a request gives the variable, unless it removes it. -/
def Extent.Request.value? : Request → Option Value
  | create _ value | assign _ value | set _ value => some value
  | delete _ => none

namespace Extent

variable {x y : Extent}

/-- Do what is asked. -/
def perform (x : Extent) : Request → Except ContextError Unit × Extent
  | .create name value => x.create name value
  | .assign name value => x.assign name value
  | .delete name => x.delete name
  | .set name value => ((x.set name value).1.map fun _ => (), (x.set name value).2)

/-- Do what is asked, one after the other; a request that fails is passed over. -/
def performAll (x : Extent) (requests : List Request) : Extent :=
  requests.foldl (fun x r => (x.perform r).2) x

/-- However a name that is set was placed, the change is what counts. -/
theorem perform_set_of {name : String} {value : Value} {placement : Placement}
    {changed : Except ContextError Unit × Extent}
    (same : x.set name value = placed placement changed) :
    x.perform (.set name value) = changed := by
  rw [perform, same]
  rcases changed with ⟨_ | _, y⟩ <;> rfl

/-- Setting a name is creating it or assigning it. -/
theorem perform_set (x : Extent) (name : String) (value : Value) :
    x.perform (.set name value) = x.create name value ∨
      x.perform (.set name value) = x.assign name value := by
  rcases x.set_eq name value with ⟨-, same⟩ | ⟨-, same⟩
  · exact .inl (perform_set_of same)
  · exact .inr (perform_set_of same)

/-- A change of a name fails and the contexts stay, or it has been made in one context. -/
def Changed (x y : Extent) (name : String) (answer : Except ContextError Unit) : Prop :=
  (∃ refusal, answer = .error refusal ∧ y.scopes = x.scopes) ∨
    answer = .ok () ∧ ∃ inner c outer ch, Change.name ch = name ∧ x.Rewrites y inner c outer ch

theorem changed_of_create {name : String} {value : Value} {answer : Except ContextError Unit}
    (ran : x.create name value = (answer, y)) : x.Changed y name answer := by
  rcases create_cases ran with refused | ⟨done, c, outer, rewrites⟩
  · exact .inl refused
  · exact .inr ⟨done, [], c, outer, .create name value, rfl, rewrites⟩

theorem changed_of_changeVisible (ch : Change) {answer : Except ContextError Unit}
    (ran : x.changeVisible ch.name ch = (answer, y)) : x.Changed y ch.name answer := by
  rcases changeVisible_cases ran with refused | ⟨done, inner, c, outer, _, -, -, rewrites⟩
  · exact .inl refused
  · exact .inr ⟨done, inner, c, outer, ch, rfl, rewrites⟩

/-- Everything that a request can do. -/
theorem perform_cases {r : Request} {answer : Except ContextError Unit}
    (ran : x.perform r = (answer, y)) : x.Changed y r.name answer := by
  cases r with
  | create name value => exact changed_of_create ran
  | assign name value => exact changed_of_changeVisible (.assign name value) ran
  | delete name => exact changed_of_changeVisible (.delete name) ran
  | set name value =>
    rcases x.perform_set name value with same | same
    · exact changed_of_create (same.symm.trans ran)
    · exact changed_of_changeVisible (.assign name value) (same.symm.trans ran)

theorem IsReliable.perform (reliable : x.IsReliable) (r : Request) :
    (x.perform r).2.IsReliable := by
  rcases ran : x.perform r with ⟨answer, y⟩
  rcases perform_cases ran with ⟨-, -, same⟩ | ⟨-, inner, c, outer, ch, -, before, m, -, after⟩
  · exact fun c member => reliable c (same ▸ member)
  · intro b member
    have kept (d : Context) (inside : d ∈ inner ++ c :: outer) : d.isReliable = true :=
      reliable d (before ▸ inside)
    rw [after, List.mem_append, List.mem_cons] at member
    rcases member with front | rfl | back
    · exact kept b (by simp [front])
    · rw [Context.isReliable_withContents]
      exact kept c (by simp)
    · exact kept b (by simp [back])

theorem IsReliable.performAll (reliable : x.IsReliable) (requests : List Request) :
    (x.performAll requests).IsReliable := by
  induction requests generalizing x with
  | nil => exact reliable
  | cons r rest ih => exact ih (reliable.perform r)

/-- The context that a request changes, with those around it, and the change that it makes there. A
new variable goes into the innermost context, and only there a name must not be held yet. Else the
first context that holds the name is changed. -/
inductive Request.Reaches (scopes : List Context) :
    Request → List Context → Context → List Context → Change → Prop
  | create {name : String} {c : Context} {outer : List Context} (value : Value)
    (split : scopes = c :: outer) (new : name ∉ c.contents.vars.names) :
    Reaches scopes (.create name value) [] c outer (.create name value)
  | assign {name : String} {inner outer : List Context} {c : Context} (value : Value)
    (first : FirstHolds scopes name inner c outer) :
    Reaches scopes (.assign name value) inner c outer (.assign name value)
  | delete {name : String} {inner outer : List Context} {c : Context}
    (first : FirstHolds scopes name inner c outer) :
    Reaches scopes (.delete name) inner c outer (.delete name)
  | setHeld {name : String} {inner outer : List Context} {c : Context} (value : Value)
    (first : FirstHolds scopes name inner c outer) :
    Reaches scopes (.set name value) inner c outer (.assign name value)
  | setNew {name : String} {c : Context} {outer : List Context} (value : Value)
    (split : scopes = c :: outer) (absent : ∀ b ∈ scopes, name ∉ b.contents.vars.names) :
    Reaches scopes (.set name value) [] c outer (.create name value)

namespace Request

variable {r : Request}

theorem Reaches.suits {scopes inner outer : List Context} {c : Context} {ch : Change}
    (reaches : r.Reaches scopes inner c outer ch) :
    scopes = inner ++ c :: outer ∧ ch.Suits c.contents := by
  cases reaches with
  | create _ split new => exact ⟨split, new⟩
  | assign _ first | delete first | setHeld _ first => exact ⟨first.split, first.present⟩
  | setNew _ split absent => exact ⟨split, absent c (by simp [split])⟩

/-- The change is of the variable and to the value that are asked for, and the contexts further in
do not hold the variable. -/
theorem Reaches.asked {scopes inner outer : List Context} {c : Context} {ch : Change}
    (reaches : r.Reaches scopes inner c outer ch) : ch.name = r.name ∧ ch.value? = r.value? ∧
      ∀ b ∈ inner, r.name ∉ b.contents.vars.names := by
  cases reaches with
  | create _ _ _ | setNew _ _ _ => exact ⟨rfl, rfl, by simp⟩
  | assign _ first | delete first | setHeld _ first => exact ⟨rfl, rfl, first.absent⟩

end Request

/-- A request changes the context that it reaches, or reaches none and fails. -/
def ReachesOrFails (x : Extent) (r : Request) : Prop :=
  (∃ inner c outer ch, r.Reaches x.scopes inner c outer ch ∧
    x.perform r = changeOf inner c outer ch x.disk) ∨
  (∀ inner c outer ch, ¬ r.Reaches x.scopes inner c outer ch) ∧
    ∃ e, (x.perform r).1 = .error e

theorem create_reachesOrFails (x : Extent) (name : String) (value : Value) :
    x.ReachesOrFails (.create name value) := by
  cases split : x.scopes with
  | nil =>
    refine .inr ⟨?_, .emptyExtent name, by simp [perform, create, isEmpty, split]⟩
    intro inner c outer ch reaches
    cases reaches with
    | create _ same _ => simp [split] at same
  | cons c outer =>
    have made : x.perform (.create name value) = _ := create_eq split
    by_cases held : name ∈ c.contents.vars.names
    · refine .inr ⟨?_, ?_⟩
      · intro inner b others ch reaches
        cases reaches with
        | create _ same new =>
          obtain ⟨rfl, -⟩ := List.cons.inj (split.symm.trans same)
          exact new held
      · rw [made]
        rcases ran : changeOf [] c outer (.create name value) x.disk with ⟨answer, y⟩
        rcases changeOf_cases split ran with ⟨e, failed, -⟩ | ⟨-, -, m, changed, -⟩
        · exact ⟨e, failed⟩
        · exact absurd held (Memory.exists_change_iff.mp ⟨m, changed⟩)
    · exact .inl ⟨[], c, outer, _, .create value split held, made⟩

/-- A name that no context has is created innermost when it is set, if there is a context. -/
theorem set_reachesOrFails {name : String} (lacking : ∀ c ∈ x.scopes, c.lacks name = true)
    (value : Value) : x.ReachesOrFails (.set name value) := by
  have unknown := leavesUnknown lacking
  cases split : x.scopes with
  | nil =>
    refine .inr ⟨?_, .emptyExtent name, ?_⟩
    · intro inner c outer ch reaches
      cases reaches with
      | setHeld _ first => exact not_firstHolds (by simp [split]) first
      | setNew _ same _ => simp [split] at same
    · rw [perform, unknown.setNowhere split]
      rfl
  | cons c outer =>
    have made := ((unknown.setInnermost c outer split).2 value).1
    have absent : ∀ b ∈ x.scopes, name ∉ b.contents.vars.names := fun b member =>
      Context.not_mem_of_lacks (lacking b member)
    exact .inl ⟨[], c, outer, _, .setNew value split absent, perform_set_of made⟩

/-- Where all contexts can be read, the search of the extent finds the context that is reached. -/
theorem reachesOrFails (reliable : x.IsReliable) (r : Request) : x.ReachesOrFails r := by
  have nowhere {name : String} (lacking : ∀ c ∈ x.scopes, c.lacks name = true)
      {inner outer : List Context} {c : Context} : ¬ FirstHolds x.scopes name inner c outer :=
    not_firstHolds fun b member => Context.not_mem_of_lacks (lacking b member)
  cases r with
  | create name value => exact x.create_reachesOrFails name value
  | assign name value =>
    rcases x.lacking_or_stops name with lacking | ⟨inner, c, outer, stops⟩
    · refine .inr ⟨?_, .unknownVariable name, by rw [perform, (leavesUnknown lacking).assign]⟩
      intro inner c outer ch reaches
      cases reaches with
      | assign _ first => exact nowhere lacking first
    · obtain ⟨first, _, read⟩ := stops.firstHolds reliable
      exact .inl ⟨inner, c, outer, _, .assign value first, (stops.serves read).assign value⟩
  | delete name =>
    rcases x.lacking_or_stops name with lacking | ⟨inner, c, outer, stops⟩
    · refine .inr ⟨?_, .unknownVariable name, by rw [perform, (leavesUnknown lacking).delete]⟩
      intro inner c outer ch reaches
      cases reaches with
      | delete first => exact nowhere lacking first
    · obtain ⟨first, _, read⟩ := stops.firstHolds reliable
      exact .inl ⟨inner, c, outer, _, .delete first, (stops.serves read).delete⟩
  | set name value =>
    rcases x.lacking_or_stops name with lacking | ⟨inner, c, outer, stops⟩
    · exact set_reachesOrFails lacking value
    · obtain ⟨first, _, read⟩ := stops.firstHolds reliable
      exact .inl ⟨inner, c, outer, _, .setHeld value first,
        perform_set_of ((stops.serves read).set value)⟩

/-- What a request that succeeds makes of the environment: every other name is read as before, and
its own reads what it was given, or, if it was removed, what the first of the contexts behind holds.
The context that the request reaches has been changed, and all others are as they were. -/
structure Moves (x y : Extent) (r : Request) : Prop where
  others : ∀ other, other ≠ r.name → y.get other = x.get other
  own : ∃ inner c outer ch, r.Reaches x.scopes inner c outer ch ∧ x.DiffersIn y inner c outer ch ∧
    y.get r.name = match r.value?, innermost? r.name outer with
      | some value, _ => .ok value
      | none, some v => .ok v.value
      | none, none => .error (.unknownVariable r.name)

/-- Why a request fails, with all contexts as they were: it reaches none of them, or the file of the
one that it reaches cannot be written. -/
structure Fails (x y : Extent) (r : Request) (e : ContextError) : Prop where
  stays : y.scopes = x.scopes
  why : (∀ inner c outer ch, ¬ r.Reaches x.scopes inner c outer ch) ∨
    e = .storage .disk ∧ ∃ inner f outer ch, r.Reaches x.scopes inner (.file f) outer ch

theorem Request.Reaches.moves {r : Request} {inner outer : List Context} {c : Context} {ch : Change}
    (reaches : r.Reaches x.scopes inner c outer ch) (reliable : x.IsReliable)
    (rewrites : x.Rewrites y inner c outer ch) : x.Moves y r := by
  obtain ⟨name, value, absent⟩ := reaches.asked
  have kept (b : Context) (member : b ∈ inner ++ c :: outer) : b.isReliable = true :=
    reliable b (rewrites.1 ▸ member)
  have lacking : ∀ b ∈ inner, b.lacks ch.name = true := fun b member =>
    (Context.lacks_iff_of_isReliable (kept b (by simp [member]))).mpr (name ▸ absent b member)
  have behind : getIn r.name outer = match innermost? r.name outer with
      | some v => .ok v.value
      | none => .error (.unknownVariable r.name) :=
    getIn_eq fun b member => kept b (by simp [member])
  have own := rewrites.get_name lacking (Context.reads_of_isReliable (kept c (by simp)) ch.name)
  rw [name, value, behind] at own
  refine ⟨fun other apart => rewrites.get_other (name ▸ apart), inner, c, outer, ch, reaches,
    rewrites.differsIn, ?_⟩
  rw [own]
  cases r.value? with
  | some given => rfl
  | none => cases innermost? r.name outer <;> rfl

/-- After any requests to contexts that can be read, the variables that are listed are the
environment that is read: each name once, from the innermost context that holds it, in the order of
the contexts and of creation. The next request moves the environment at its own name only, if it
succeeds, and not at all, if it fails; and it fails only if no context is there for it, or a file
cannot be written. -/
theorem environment_coherent (reliable : x.IsReliable) (requests : List Request) :
    (∃ vars, (x.performAll requests).list = .ok vars ∧ (x.performAll requests).Lists vars) ∧
      ∀ r, match (x.performAll requests).perform r with
        | (.error e, y) => (x.performAll requests).Fails y r e
        | (.ok (), y) => (x.performAll requests).Moves y r := by
  have reached := reliable.performAll requests
  refine ⟨exists_list reached, fun r => ?_⟩
  generalize x.performAll requests = x at reached
  rcases ran : x.perform r with ⟨answer, y⟩
  rcases reachesOrFails reached r with ⟨inner, c, outer, ch, reaches, made⟩ | ⟨none, e, failed⟩
  · obtain ⟨split, suits⟩ := reaches.suits
    rcases changeOf_cases split (made.symm.trans ran) with
      ⟨e, rfl, same, unsuited | ⟨⟨f, rfl⟩, rfl⟩⟩ | ⟨rfl, rewrites⟩
    · obtain ⟨m, changed⟩ := Memory.exists_change_iff.mpr suits
      rw [changed] at unsuited
      cases unsuited
    · exact ⟨same, .inr ⟨rfl, inner, f, outer, ch, reaches⟩⟩
    · exact reaches.moves reached rewrites
  · obtain rfl : answer = .error e := by rw [← failed, ran]
    rcases perform_cases ran with ⟨_, -, same⟩ | ⟨done, -⟩
    · exact ⟨same, .inl none⟩
    · cases done

/-- An inner context between two others, whose `x` hides that of the outermost, which has a `y`,
too. -/
def shadowed : Extent := .ofMemories [
  ⟨.eventData, .ofList [("w", .null)]⟩,
  ⟨.machineLocal, .ofList [("x", .integer 2)]⟩,
  ⟨.persistent, .ofList [("x", .integer 1), ("y", .bool true)]⟩]

/-- Deleting `x` takes the one that hides the other, and deleting `y` takes the outermost. -/
theorem environment_coherent_shadowed :
    let y := shadowed.performAll [.set "z" .null, .set "y" (.integer 3)]
    shadowed.IsReliable ∧
      (∃ vars, y.list = .ok vars ∧ y.Lists vars ∧
        vars.map Variable.name = ["w", "z", "x", "y"]) ∧
      (∃ z, y.perform (.delete "x") = (.ok (), z) ∧ y.Moves z (.delete "x") ∧
        y.get "x" = .ok (.integer 2) ∧ z.get "x" = .ok (.integer 1)) ∧
      (∃ z, y.perform (.delete "y") = (.ok (), z) ∧ y.Moves z (.delete "y") ∧
        y.get "y" = .ok (.integer 3) ∧ z.get "y" = .error (.unknownVariable "y")) ∧
      ∃ z, y.perform (.create "w" .null) = (.error (.variableExists "w" .eventData), z) ∧
        y.Fails z (.create "w" .null) (.variableExists "w" .eventData) := by
  intro y
  have reliable : shadowed.IsReliable := by
    intro c member
    obtain ⟨m, -, rfl⟩ := List.mem_map.mp member
    rfl
  obtain ⟨⟨vars, listed, lists⟩, next⟩ :=
    environment_coherent reliable [.set "z" .null, .set "y" (.integer 3)]
  have names : y.list.map (fun vars => vars.map Variable.name) = .ok ["w", "z", "x", "y"] := rfl
  refine ⟨reliable, ⟨vars, listed, lists, ?_⟩, ⟨_, rfl, next (.delete "x"), rfl, rfl⟩,
    ⟨_, rfl, next (.delete "y"), rfl, rfl⟩, _, rfl, next (.create "w" .null)⟩
  rw [listed] at names
  exact Except.ok.inj names

end Extent

end StateMachines
