import StateMachines.Proofs.Abridging

/-! # Readers of abridged trees

A tree conveys `a` to a reader if the reader finds `a` in every abridgement of it, given room for
its levels. Lists, cases and records convey what they are made of as soon as their parts do, so a
reader that is put together from others needs no argument about abridgements of its own.
-/

namespace StateMachines

namespace Json

variable {α β : Type} {j k : Json} {room : Nat}

/-- Given room for its levels, all of the tree can be read. -/
def IsWhole (j : Json) : Prop := ∀ room, j.nesting ≤ room → j.isSound room = true

/-- Given room for its levels, all of the tree can be read, and `a` is found in what abridges it. -/
structure Conveys (read? : Nat → Json → Option α) (j : Json) (a : α) : Prop where
  whole : j.IsWhole
  reads : ∀ {room k}, j.nesting ≤ room → j.Abridges k → read? room k = some a

/-! ## Whole trees -/

theorem isWhole_null : null.IsWhole := fun _ _ => rfl

theorem isWhole_array {items : List Json} (each : ∀ item ∈ items, item.IsWhole) :
    (array items).IsWhole := by
  intro room nests
  cases room with
  | zero => simp [nesting] at nests
  | succ room =>
    rw [nesting, Nat.add_le_add_iff_right, itemsNesting_le_iff] at nests
    have inside := areSound_iff.mpr fun item held => each item held room (nests item held)
    simpa [isSound] using inside

theorem isWhole_ofMembers {members : List (String × Json)}
    (each : ∀ member ∈ members, member.2.IsWhole) : (ofMembers members).IsWhole := by
  intro room nests
  cases room with
  | zero => simp [ofMembers, nesting] at nests
  | succ room =>
    have fits := nesting_ofMembers_le_iff.mp nests
    have inside : membersSound room (members.map (Prod.map some id)) = true := by
      refine membersSound_iff.mpr fun named held => ?_
      obtain ⟨member, found, rfl⟩ := List.mem_map.mp held
      exact ⟨rfl, each member found room (fits member found)⟩
    simpa [ofMembers_eq_object, isSound] using inside

theorem isWhole_tagged {tag : String} (payload : j.IsWhole) : (tagged tag j).IsWhole := by
  have member : ∀ member ∈ [(tag, j)], member.2.IsWhole := by simpa using payload
  exact isWhole_ofMembers member

/-! ## Parts -/

namespace Conveys

variable {read? : Nat → Json → Option α} {a : α}

theorem ofText (s : String) : Conveys (fun _ => asText?) (.ofText s) s where
  whole _ _ := rfl
  reads _ abridged := by cases abridged; rfl

theorem bool (b : Bool) : Conveys (fun _ => asBool?) (.bool b) b where
  whole _ _ := rfl
  reads _ abridged := by cases abridged; rfl

/-- What is made of what is read. -/
theorem map (f : α → β) (conveys : Conveys read? j a) :
    Conveys (fun room k => (read? room k).map f) j (f a) where
  whole := conveys.whole
  reads nests abridged := by rw [conveys.reads nests abridged, Option.map_some]

theorem mapM {toJson : α → Json} {as : List α} {others : List Json}
    (each : ∀ a ∈ as, Conveys read? (toJson a) a)
    (nests : ∀ a ∈ as, (toJson a).nesting ≤ room)
    (abridged : List.Forall₂ Abridges (as.map toJson) others) :
    others.mapM (read? room) = some as := by
  induction as generalizing others with
  | nil => cases abridged; rfl
  | cons a rest ih =>
    cases abridged with
    | cons first others =>
      rw [List.forall_mem_cons] at each nests
      simp [each.1.reads nests.1 first, ih each.2 nests.2 others]

/-- A list is read if its items are. -/
theorem list {toJson : α → Json} {as : List α} (each : ∀ a ∈ as, Conveys read? (toJson a) a) :
    Conveys (list? read?) (.array (as.map toJson)) as where
  whole := isWhole_array (by simpa using fun a held => (each a held).whole)
  reads {room k} nests abridged := by
    cases room with
    | zero => simp [nesting] at nests
    | succ room =>
      rw [nesting, Nat.add_le_add_iff_right, itemsNesting_le_iff] at nests
      cases abridged with
      | array items => exact mapM each (by simpa using nests) items

/-- What may be missing is read if it is there and is not taken for `null`. -/
theorem nullable {toJson : α → Json} (o : Option α)
    (each : ∀ a ∈ o, Conveys read? (toJson a) a ∧ toJson a ≠ .null) :
    Conveys (nullable? read?) (o.elim .null toJson) o := by
  cases o with
  | none =>
    refine ⟨isWhole_null, fun _ abridged => ?_⟩
    cases abridged
    rfl
  | some a =>
    obtain ⟨conveys, notNull⟩ := each a rfl
    refine ⟨conveys.whole, fun {room k} nests abridged => ?_⟩
    have read := conveys.reads nests abridged
    have there : k ≠ .null := by
      rintro rfl
      rw [Option.elim_some] at abridged
      generalize toJson a = j at abridged notNull
      cases abridged
      exact notNull rfl
    simp [nullable?, read]

/-- A case is read if its contents are. -/
theorem tagged {tag : String} (lasting : ∀ j, isDefault tag j = false)
    {payload? : Nat → Json → Option α} (payload : Conveys payload? j a)
    (step : ∀ room k, read? (room + 1) (.tagged tag k) = payload? room k) :
    Conveys read? (.tagged tag j) a where
  whole := isWhole_tagged payload.whole
  reads {room k} nests abridged := by
    cases room with
    | zero => simp [Json.tagged, nesting] at nests
    | succ room =>
      have inner : j.nesting ≤ room := by simpa [Json.tagged, nesting, membersNesting] using nests
      rw [Json.tagged] at abridged
      cases abridged with
      | object left reordered =>
        cases left with
        | keep abridged rest =>
          cases rest
          rw [← List.singleton_perm.mp reordered]
          exact (step room _).trans (payload.reads inner abridged)
        | drop default _ => simp [lasting] at default

end Conveys

/-! ## Records -/

namespace Record

variable {r : Record} {members : List (String × Json)} {read? : Nat → Json → Option α} {a : α}

/-- A field that has to be there is read if it is no default. -/
theorem Carries.required? (carries : r.Carries members) (name : String)
    (member : (name, j) ∈ members) (lasting : isDefault name j = false)
    (conveys : Conveys read? j a) : r.required? name read? = some a := by
  have nests := carries.nests _ member
  have stands := carries.stands _ member
  cases found : r.field? name with
  | none => simp [found, StandsFor, lasting] at stands
  | some k =>
    rw [found] at stands
    simp [Record.required?, found, conveys.reads nests stands]

/-- A text has no default. -/
theorem Carries.text? (carries : r.Carries members) (name s : String)
    (member : (name, .ofText s) ∈ members) : r.required? name (fun _ => asText?) = some s :=
  carries.required? name member rfl (.ofText s)

/-- A field that may be missing is read if its default stands for what it held. -/
theorem Carries.default? {default : α} (carries : r.Carries members) (name : String)
    (member : (name, j) ∈ members) (same : isDefault name j = true → a = default)
    (conveys : Conveys read? j a) : r.default? name read? default = some a := by
  have nests := carries.nests _ member
  have stands := carries.stands _ member
  cases found : r.field? name with
  | none =>
    rw [found] at stands
    simp [Record.default?, found, same stands]
  | some k =>
    rw [found] at stands
    simp [Record.default?, found, conveys.reads nests stands]

/-- A list may be missing if it is empty. -/
theorem Carries.list? {toJson : α → Json} {as : List α} (carries : r.Carries members)
    (name : String) (member : (name, .array (as.map toJson)) ∈ members)
    (conveys : Conveys (Json.list? read?) (.array (as.map toJson)) as) :
    r.default? name (Json.list? read?) [] = some as :=
  carries.default? name member
    (fun default => List.map_eq_nil_iff.mp (eq_nil_of_isDefault default)) conveys

/-- A flag may be missing if it is off. -/
theorem Carries.flag? (carries : r.Carries members) (name : String) (b : Bool)
    (member : (name, .bool b) ∈ members) :
    r.default? name (fun _ => asBool?) false = some b :=
  carries.default? name member eq_false_of_isDefault (.bool b)

/-- What stands for nothing may be missing. -/
theorem Carries.optional? {toJson : α → Json} {o : Option α} (carries : r.Carries members)
    (name : String) (member : (name, o.elim .null toJson) ∈ members)
    (lasting : ∀ a ∈ o, isDefault name (toJson a) = false)
    (conveys : Conveys (nullable? read?) (o.elim .null toJson) o) :
    r.optional? name read? = some o := by
  refine carries.default? name member (fun default => ?_) conveys
  cases o with
  | none => rfl
  | some a => simp [lasting a rfl] at default

end Record

/-- A record is read if it is read from every record of its members. -/
theorem Conveys.record {members : List (String × Json)} {names : List String}
    {read? : Record → Option α} {a : α} (distinct : (members.map Prod.fst).Nodup)
    (whole : ∀ member ∈ members, member.2.IsWhole)
    (reads : ∀ r : Record, r.Carries members → read? r = some a) :
    Conveys (fun room k => (k.record? names room).bind read?) (ofMembers members) a where
  whole := isWhole_ofMembers whole
  reads {room k} nests abridged := by
    cases room with
    | zero => simp [ofMembers, nesting] at nests
    | succ room =>
      obtain ⟨others, rfl, once, carries⟩ := abridged.members distinct nests
      simp [record?, fields?, once, reads _ carries]

end Json

end StateMachines
