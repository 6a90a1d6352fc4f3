import Mathlib.Data.List.Nodup
import StateMachines.Proofs.SnapshotText

/-! # Abridged JSON trees

A declaration may be written shorter than it is written by default: a field that holds its default
may be left out, and the fields of an object may stand in any order. `Abridges` is that relation
between trees. A reader understands it if it reads the same from every abridgement of a tree
(`Conveys`); records, lists and cases are understood if their parts are.
-/

namespace StateMachines

namespace Json

/-- The fields that are absent by default and may be written as `null`. -/
def nullableFields : List String :=
  ["name", "extends", "localContext", "persistentContext", "guard"]

/-- The lists that are empty by default. -/
def listFields : List String :=
  ["stateMachines", "guards", "actions", "entry", "exit", "on", "data"]

/-- The flags that are off by default. -/
def flagFields : List String := ["abstract", "virtual"]

/-- The field holds what is read where it is absent. -/
def isDefault (name : String) : Json → Bool
  | null => name ∈ nullableFields
  | array [] => name ∈ listFields
  | bool false => name ∈ flagFields
  | _ => false

/-- A field that has no default is never left out. -/
theorem isDefault_eq_false {name : String}
    (lasting : name ∉ nullableFields ++ listFields ++ flagFields) (j : Json) :
    isDefault name j = false := by
  simp only [List.mem_append, not_or] at lasting
  rw [isDefault.eq_def]
  split <;> simp [lasting]

/-- Of the arrays only an empty one is a default. -/
theorem eq_nil_of_isDefault {name : String} {items : List Json}
    (default : isDefault name (array items) = true) : items = [] := by
  cases items with
  | nil => rfl
  | cons => simp [isDefault] at default

/-- Of the flags only `false` is a default. -/
theorem eq_false_of_isDefault {name : String} {b : Bool}
    (default : isDefault name (bool b) = true) : b = false := by
  cases b with
  | false => rfl
  | true => simp [isDefault] at default

mutual

/-- The second tree is the first one without some fields that hold their defaults, and with the
members of its objects in any order. -/
inductive Abridges : Json → Json → Prop
  | null : Abridges null null
  | bool (b : Bool) : Abridges (bool b) (bool b)
  | number (n : Numeral) : Abridges (number n) (number n)
  | text (t : Option String) : Abridges (text t) (text t)
  | array {items others : List Json} (each : List.Forall₂ Abridges items others) :
      Abridges (array items) (array others)
  | object {members kept others : List (Option String × Json)} (left : Leaves members kept)
      (reordered : kept.Perm others) : Abridges (object members) (object others)

/-- Of the members of an object the given ones are left, abridged and in the same order. -/
inductive Leaves : List (Option String × Json) → List (Option String × Json) → Prop
  | nil : Leaves [] []
  | keep {name : Option String} {value short : Json} {members kept : List (Option String × Json)}
      (abridged : Abridges value short) (rest : Leaves members kept) :
      Leaves ((name, value) :: members) ((name, short) :: kept)
  | drop {name : String} {value : Json} {members kept : List (Option String × Json)}
      (default : isDefault name value = true) (rest : Leaves members kept) :
      Leaves ((some name, value) :: members) kept

end

variable {j k : Json} {room : Nat}

mutual

/-- Nothing has to be left out or moved. -/
theorem Abridges.refl : (j : Json) → j.Abridges j
  | .null => .null
  | .bool b => .bool b
  | .number n => .number n
  | .text t => .text t
  | .array items => .array (forall₂_abridges_refl items)
  | .object members => .object (Leaves.refl members) (.refl members)

theorem forall₂_abridges_refl : (items : List Json) → List.Forall₂ Abridges items items
  | [] => .nil
  | item :: rest => .cons (Abridges.refl item) (forall₂_abridges_refl rest)

theorem Leaves.refl : (members : List (Option String × Json)) → Leaves members members
  | [] => .nil
  | (_, value) :: rest => .keep (Abridges.refl value) (Leaves.refl rest)

end

/-! ## Trees that can be read as a whole -/

theorem membersSound_iff {members : List (Option String × Json)} :
    membersSound room members = true ↔
      ∀ member ∈ members, member.1.isSome = true ∧ member.2.isSound room = true := by
  induction members with
  | nil => simp [membersSound]
  | cons member rest ih =>
    obtain ⟨name, value⟩ := member
    simp only [membersSound, Bool.and_eq_true, ih, List.forall_mem_cons]

theorem areSound_iff {items : List Json} :
    areSound room items = true ↔ ∀ item ∈ items, item.isSound room = true := by
  induction items with
  | nil => simp [areSound]
  | cons item rest ih => simp only [areSound, Bool.and_eq_true, ih, List.forall_mem_cons]

mutual

/-- What is read as a whole is spelled. -/
theorem isSpelled_of_isSound : (j : Json) → {room : Nat} → j.isSound room = true →
    j.isSpelled = true
  | .null, _, _ => rfl
  | .bool _, _, _ => rfl
  | .number _, _, _ => rfl
  | .text _, _, sound => sound
  | .array items, _, sound => by
    simp only [isSound, Bool.and_eq_true] at sound
    exact areSpelled_of_areSound items sound.2
  | .object members, _, sound => by
    simp only [isSound, Bool.and_eq_true] at sound
    exact membersSpelled_of_membersSound members sound.2

theorem areSpelled_of_areSound : (items : List Json) → {room : Nat} →
    areSound room items = true → areSpelled items = true
  | [], _, _ => rfl
  | item :: rest, _, sound => by
    simp only [areSound, Bool.and_eq_true] at sound
    simp [areSpelled, isSpelled_of_isSound item sound.1, areSpelled_of_areSound rest sound.2]

theorem membersSpelled_of_membersSound : (members : List (Option String × Json)) → {room : Nat} →
    membersSound room members = true → membersSpelled members = true
  | [], _, _ => rfl
  | (name, value) :: rest, _, sound => by
    simp only [membersSound, Bool.and_eq_true] at sound
    simp [membersSpelled, sound.1.1, isSpelled_of_isSound value sound.1.2,
      membersSpelled_of_membersSound rest sound.2]

end

mutual

/-- An abridgement needs no more room, and nothing in it is new. -/
theorem Abridges.isSound : (j : Json) → {k : Json} → {room : Nat} → j.Abridges k →
    j.isSound room = true → k.isSound room = true
  | _, _, _, .null, sound => sound
  | _, _, _, .bool _, sound => sound
  | _, _, _, .number _, sound => sound
  | _, _, _, .text _, sound => sound
  | .array items, _, _, .array each, sound => by
    simp only [Json.isSound, Bool.and_eq_true] at sound ⊢
    exact ⟨sound.1, areSound_of_forall₂ items each sound.2⟩
  | .object members, _, _, .object left reordered, sound => by
    simp only [Json.isSound, Bool.and_eq_true] at sound ⊢
    have kept := membersSound_iff.mp (Leaves.membersSound members left sound.2)
    refine ⟨sound.1, membersSound_iff.mpr fun member held => ?_⟩
    exact kept member (reordered.mem_iff.mpr held)

theorem areSound_of_forall₂ : (items : List Json) → {others : List Json} → {room : Nat} →
    List.Forall₂ Abridges items others → areSound room items = true → areSound room others = true
  | [], _, _, .nil, _ => rfl
  | item :: rest, _, _, .cons first each, sound => by
    simp only [areSound, Bool.and_eq_true] at sound ⊢
    exact ⟨first.isSound item sound.1, areSound_of_forall₂ rest each sound.2⟩

theorem Leaves.membersSound : (members : List (Option String × Json)) →
    {kept : List (Option String × Json)} → {room : Nat} → Leaves members kept →
      Json.membersSound room members = true → Json.membersSound room kept = true
  | [], _, _, .nil, _ => rfl
  | (_, value) :: rest, _, _, .keep abridged left, sound => by
    simp only [Json.membersSound, Bool.and_eq_true] at sound ⊢
    exact ⟨⟨sound.1.1, abridged.isSound value sound.1.2⟩, left.membersSound rest sound.2⟩
  | _ :: rest, _, _, .drop _ left, sound => by
    simp only [Json.membersSound, Bool.and_eq_true] at sound
    exact left.membersSound rest sound.2

end

/-! ## What stands under a name -/

/-- What may stand under a name where a member was: its abridgement, or nothing if it was a
default. -/
def StandsFor (name : String) (j : Json) : Option Json → Prop
  | some k => j.Abridges k
  | none => isDefault name j = true

section Lookup

variable {members kept others : List (Option String × Json)} {name : String}

theorem Leaves.sublist (left : Leaves members kept) :
    (kept.map Prod.fst).Sublist (members.map Prod.fst) := by
  induction members generalizing kept with
  | nil => cases left; exact .refl _
  | cons member rest ih =>
    cases left with
    | keep _ left => exact (ih left).cons_cons _
    | drop _ left => exact (ih left).cons _

/-- What is left was there. -/
theorem Leaves.exists_mem {key : Option String} (left : Leaves members kept)
    (held : (key, k) ∈ kept) : ∃ j, (key, j) ∈ members ∧ j.Abridges k := by
  induction members generalizing kept with
  | nil => cases left; cases held
  | cons first rest ih =>
    have later {j : Json} :
        (key, j) ∈ rest ∧ j.Abridges k → (key, j) ∈ first :: rest ∧ j.Abridges k :=
      And.imp_left (List.mem_cons_of_mem first)
    cases left with
    | keep abridged left =>
      rcases List.mem_cons.mp held with same | held
      · cases same
        exact ⟨_, List.mem_cons_self, abridged⟩
      · exact (ih left held).imp fun _ => later
    | drop _ left => exact (ih left held).imp fun _ => later

/-- What was there is left, unless it was a default. -/
theorem Leaves.mem_or_isDefault (left : Leaves members kept) (member : (some name, j) ∈ members) :
    some name ∈ kept.map Prod.fst ∨ isDefault name j = true := by
  induction members generalizing kept with
  | nil => cases member
  | cons first rest ih =>
    cases left with
    | keep _ left =>
      rcases List.mem_cons.mp member with same | later
      · cases same
        exact .inl List.mem_cons_self
      · exact (ih left later).imp_left (List.mem_cons_of_mem _)
    | drop default left =>
      rcases List.mem_cons.mp member with same | later
      · cases same
        exact .inr default
      · exact ih left later

/-- Under each name of an object without repetitions stands what stands for its member. -/
theorem Leaves.standsFor (left : Leaves members kept) (reordered : kept.Perm others)
    (distinct : (members.map Prod.fst).Nodup) (member : (some name, j) ∈ members) :
    StandsFor name j (others.lookup (some name)) := by
  cases found : others.lookup (some name) with
  | none =>
    refine (left.mem_or_isDefault member).resolve_left fun held => ?_
    obtain ⟨other, held, same⟩ := List.mem_map.mp ((reordered.map Prod.fst).mem_iff.mp held)
    have apart := List.lookup_eq_none_iff.mp found other held
    simp [same] at apart
  | some k =>
    obtain ⟨before, after, rfl, -⟩ := List.lookup_eq_some_iff.mp found
    have here : (some name, k) ∈ kept := reordered.mem_iff.mpr (by simp)
    obtain ⟨i, held, abridged⟩ := left.exists_mem here
    have same := List.inj_on_of_nodup_map distinct held member rfl
    cases same
    exact abridged

end Lookup

namespace Record

/-- A record of which each field stands for one of the given members, for all of whose levels there
is room. -/
structure Carries (r : Record) (members : List (String × Json)) : Prop where
  nests : ∀ member ∈ members, member.2.nesting ≤ r.room
  stands : ∀ member ∈ members, StandsFor member.1 member.2 (r.field? member.1)

end Record

/-- The members of an object, each with a name that can be read. -/
theorem ofMembers_eq_object (members : List (String × Json)) :
    ofMembers members = object (members.map (Prod.map some id)) := rfl

/-- The levels of an object are those of its members and its own. -/
theorem nesting_ofMembers_le_iff {members : List (String × Json)} :
    (ofMembers members).nesting ≤ room + 1 ↔ ∀ member ∈ members, member.2.nesting ≤ room := by
  rw [ofMembers_eq_object, nesting, Nat.add_le_add_iff_right]
  induction members with
  | nil => simp [membersNesting]
  | cons member rest ih =>
    obtain ⟨name, value⟩ := member
    rw [List.map_cons, Prod.map_apply, membersNesting, Nat.max_le, ih, List.forall_mem_cons]
    rfl

/-- An abridged object, its names told apart, holds a record of its members. -/
theorem Abridges.members {members : List (String × Json)} (distinct : (members.map Prod.fst).Nodup)
    (nests : (ofMembers members).nesting ≤ room + 1) (abridged : (ofMembers members).Abridges k) :
    ∃ others, k = .object others ∧ (∀ names, hasFieldsOnce names others = true) ∧
      Record.Carries ⟨room, fun name => others.lookup (some name)⟩ members := by
  have keys : (members.map (Prod.map some id)).map Prod.fst = (members.map Prod.fst).map some := by
    rw [List.map_map, List.map_map]
    rfl
  have distinctKeys : ((members.map (Prod.map some (id : Json → Json))).map Prod.fst).Nodup := by
    rw [keys]
    exact distinct.map fun _ _ => Option.some.inj
  rw [ofMembers_eq_object] at abridged
  cases abridged with
  | @object _ kept others left reordered =>
    have once : (others.map Prod.fst).Nodup :=
      (reordered.map Prod.fst).nodup_iff.mp (distinctKeys.sublist left.sublist)
    have isNamed : ∀ member ∈ others, member.1.isSome = true := by
      intro member held
      have key : member.1 ∈ kept.map Prod.fst :=
        List.mem_map_of_mem (reordered.mem_iff.mpr held)
      have key := left.sublist.subset key
      rw [keys, List.mem_map] at key
      obtain ⟨name, -, same⟩ := key
      simp [← same]
    exact ⟨others, rfl, fun names => hasFieldsOnce_of_nodup names isNamed once,
      nesting_ofMembers_le_iff.mp nests, fun member held =>
        left.standsFor reordered distinctKeys (List.mem_map_of_mem held)⟩

end Json

end StateMachines
