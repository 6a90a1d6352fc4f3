import StateMachines.Proofs.JsonText
import StateMachines.Value.Json

/-! # Values read back

A value is read from its own tree exactly if every float in it is a number whose numeral is worth
that float, and there is room for its lists: each takes two levels, any other value but `null` one.
-/

namespace StateMachines

/-- The float is a number, and its numeral is worth it. -/
def Binary64.readsBack (x : Binary64) : Bool :=
  x.isFinite && (x.numeral Value.jsonStyle).quantity?.map Quantity.toBinary64 == some x

namespace Value

mutual

/-- Every float in the value is read back from its numeral. -/
def readsBack : Value → Bool
  | float x => x.readsBack
  | list items => listReadsBack items
  | _ => true

def listReadsBack : List Value → Bool
  | [] => true
  | item :: rest => item.readsBack && listReadsBack rest

end

mutual

/-- How many arrays and objects stand one in another in the tree of a value. -/
def levels : Value → Nat
  | null => 0
  | list items => listLevels items + 2
  | _ => 1

def listLevels : List Value → Nat
  | [] => 0
  | item :: rest => max item.levels (listLevels rest)

end

/-! ## Writing -/

mutual

theorem isSpelled_toJson : (v : Value) → v.toJson.isSpelled = true
  | list items => by
    simpa [toJson, Json.tagged, Json.isSpelled, Json.membersSpelled] using areSpelled_toJson items
  | float x => by
    cases number : x.isFinite <;>
      simp [toJson, floatToJson, number, Json.tagged, Json.isSpelled, Json.membersSpelled]
  | null | bool _ | integer _ | string _ => rfl

theorem areSpelled_toJson : (items : List Value) → Json.areSpelled (listToJson items) = true
  | [] => rfl
  | item :: rest => by
    simp [listToJson, Json.areSpelled, isSpelled_toJson item, areSpelled_toJson rest]

end

/-! ## Reading -/

theorem integerOfJson?_ofInt (n : Int64) :
    integerOfJson? (.number (.ofInt n.toInt)) = some n := by
  have low := n.le_toInt
  have high := n.toInt_lt
  have worth : (Numeral.ofInt n.toInt).quantity? = some (.integer n.toInt) :=
    Numeral.quantity?_ofInt low (by omega)
  simp only [integerOfJson?, Json.asQuantity?, worth]
  rw [if_pos ⟨low, high⟩, Int64.ofInt_toInt]

theorem floatOfJson?_eq_some_iff (x : Binary64) :
    (floatToJson x).asQuantity?.map Quantity.toBinary64 = some x ↔ x.readsBack = true := by
  cases number : x.isFinite <;>
    simp [floatToJson, Binary64.readsBack, number, Json.asQuantity?]

mutual

/-- A value is read from its own tree exactly if its floats are and there is room. -/
theorem ofJson?_toJson_iff (lenient : Bool) : (v : Value) → (room : Nat) →
    (ofJson? lenient room v.toJson = some v ↔ v.readsBack = true ∧ v.levels ≤ room)
  | null, room => by
    cases room <;> simp [toJson, Json.ofText, ofJson?, Json.asText?, readsBack, levels]
  | list items, room => by
    match room with
    | 0 | 1 => simp [toJson, Json.tagged, ofJson?, Json.asText?, levels]
    | inner + 2 =>
      have each := listOfJson?_toJson_iff lenient items inner
      simpa [toJson, Json.tagged, ofJson?, readsBack, levels] using each
  | bool b, room => by
    cases room <;>
      simp [toJson, Json.tagged, ofJson?, leafOfJson?, Json.asText?, Json.asBool?, readsBack,
        levels]
  | integer n, room => by
    cases room <;>
      simp [toJson, Json.tagged, ofJson?, leafOfJson?, Json.asText?, integerOfJson?_ofInt,
        readsBack, levels]
  | float x, room => by
    cases room with
    | zero => simp [toJson, Json.tagged, ofJson?, Json.asText?, levels]
    | succ room =>
      have worth := floatOfJson?_eq_some_iff x
      simpa [toJson, Json.tagged, ofJson?, leafOfJson?, readsBack, levels] using worth
  | string s, room => by
    cases room <;>
      simp [toJson, Json.tagged, Json.ofText, ofJson?, leafOfJson?, Json.asText?, readsBack, levels]

theorem listOfJson?_toJson_iff (lenient : Bool) : (items : List Value) → (room : Nat) →
    ((listToJson items).mapM (ofJson? lenient room) = some items ↔
      listReadsBack items = true ∧ listLevels items ≤ room)
  | [], room => by simp [listToJson, listReadsBack, listLevels]
  | item :: rest, room => by
    have first := ofJson?_toJson_iff lenient item room
    have others := listOfJson?_toJson_iff lenient rest room
    simp only [listToJson, List.mapM_cons, Option.pure_def, Option.bind_eq_bind,
      Option.bind_eq_some_iff, Option.some.injEq, List.cons.injEq, listReadsBack, listLevels,
      Bool.and_eq_true, Nat.max_le]
    constructor
    · rintro ⟨_, readFirst, _, readRest, rfl, rfl⟩
      obtain ⟨floats, room⟩ := first.mp readFirst
      obtain ⟨restFloats, restRoom⟩ := others.mp readRest
      exact ⟨⟨floats, restFloats⟩, room, restRoom⟩
    · rintro ⟨⟨floats, restFloats⟩, room, restRoom⟩
      exact ⟨item, first.mpr ⟨floats, room⟩, rest, others.mpr ⟨restFloats, restRoom⟩, rfl, rfl⟩

end

/-- A tenth is read back; an eleventh is read as its neighbour. -/
example : (float ⟨0x3FB999999999999A⟩).readsBack = true ∧
    (float ⟨0x3FB745D1745D1746⟩).readsBack = false := by decide +kernel

end Value

end StateMachines
