import StateMachines.Proofs.JsonText
import StateMachines.Proofs.Restoration
import StateMachines.Proofs.Stamp
import StateMachines.Proofs.ValueJson
import StateMachines.Snapshot.Json

/-! # Snapshots read back

The tree of a snapshot is a record that holds a list of records, so its values stand three levels
deep. All but the values is read back whatever it is, and what is read is then checked.
-/

namespace StateMachines

/-! ## Records -/

namespace Json

private theorem lookup_some (members : List (String × Json)) (name : String) :
    (members.map fun (name, value) => (some name, value)).lookup (some name) =
      members.lookup name := by
  induction members with
  | nil => rfl
  | cons member rest ih =>
    obtain ⟨key, value⟩ := member
    by_cases hit : name = key
    · simp [hit]
    · have miss : (some name == some key) = false := by simpa using hit
      simp [List.lookup_cons, miss, beq_false_of_ne hit, ih]

/-- Names that can be read and told apart stand once each. -/
theorem hasFieldsOnce_of_nodup {members : List (Option String × Json)} (names : List String)
    (named : ∀ member ∈ members, member.1.isSome = true)
    (distinct : (members.map Prod.fst).Nodup) : hasFieldsOnce names members = true := by
  simp only [hasFieldsOnce, Bool.and_eq_true, List.all_eq_true, decide_eq_true_eq]
  refine ⟨named, fun name _ => ?_⟩
  have count := List.nodup_iff_count.mp distinct (some name)
  simpa [List.count_eq_countP, List.countP_map, Function.comp_def] using count

/-- A record is read from an object of members with distinct names. -/
theorem record?_ofMembers {members : List (String × Json)} (names : List String) (room : Nat)
    (distinct : (members.map Prod.fst).Nodup) :
    (ofMembers members).record? names (room + 1) =
      some ⟨room, fun name => members.lookup name⟩ := by
  have fields :
      hasFieldsOnce names (members.map fun (name, value) => (some name, value)) = true := by
    refine hasFieldsOnce_of_nodup names ?_ ?_
    · intro member held
      obtain ⟨_, -, rfl⟩ := List.mem_map.mp held
      rfl
    · simpa [List.Nodup, List.pairwise_map] using distinct
  simp [record?, ofMembers, fields?, fields, lookup_some]

end Json

namespace Scope

theorem ofJson?_toJson (room : Nat) (scope : Scope) : ofJson? room scope.toJson = some scope := by
  simp [ofJson?, toJson, Json.ofText, Json.unitTag?, Json.variant?]

end Scope

namespace Variable

/-- A variable takes one level more than its value. -/
theorem ofJson?_toJson (room : Nat) (v : Variable) :
    ofJson? (room + 1) v.toJson =
      (Value.ofJson? false room v.value.toJson).map fun value => { v with value } := by
  rw [ofJson?, toJson, Json.record?_ofMembers _ _ (by simp)]
  cases read : Value.ofJson? false room v.value.toJson <;>
    simp [Json.Record.required?, List.lookup_cons, Json.ofText, Json.asText?,
      Scope.ofJson?_toJson, read]

theorem ofJson?_toJson_iff {room : Nat} {v : Variable} :
    ofJson? (room + 1) v.toJson = some v ↔ v.value.readsBack = true ∧ v.value.levels ≤ room := by
  obtain ⟨name, value, scope⟩ := v
  rw [ofJson?_toJson, ← Value.ofJson?_toJson_iff false]
  simp [Option.map_eq_some_iff]

theorem isSpelled_toJson (v : Variable) : v.toJson.isSpelled = true := by
  simp [toJson, Json.ofMembers, Json.isSpelled, Json.membersSpelled, Json.ofText,
    Value.isSpelled_toJson, Scope.toJson]

end Variable

/-- A value survives in a snapshot: its floats are read back, and there is room for its lists below
the record of the snapshot, the list of variables and the record of one of them. -/
def Value.isDurable (v : Value) : Bool := v.readsBack && v.levels + 3 ≤ Json.maxDepth

namespace Snapshot

variable {s : Snapshot}

/-- Variables are read from their own trees if each of them is. -/
theorem mapM_ofJson?_toJson_iff {room : Nat} {vars : List Variable} :
    (vars.map Variable.toJson).mapM (Variable.ofJson? room) = some vars ↔
      ∀ v ∈ vars, Variable.ofJson? room v.toJson = some v := by
  induction vars with
  | nil => simp
  | cons v rest ih =>
    simp only [List.map_cons, List.mapM_cons, Option.pure_def, Option.bind_eq_bind,
      Option.bind_eq_some_iff, Option.some.injEq, List.cons.injEq, List.mem_cons, forall_eq_or_imp,
      ← ih]
    constructor
    · rintro ⟨_, first, _, others, rfl, rfl⟩
      exact ⟨first, others⟩
    · rintro ⟨first, others⟩
      exact ⟨v, first, rest, others, rfl, rfl⟩

/-- All of a snapshot but its variables is read back. -/
theorem ofJson?_toJson (room : Nat) (version : s.version < 2 ^ 32)
    (time : Timestamp.ofString? s.stamp.takenAt.text = some s.stamp.takenAt) :
    ofJson? (room + 2) s.toJson =
      ((s.vars.map Variable.toJson).mapM (Variable.ofJson? room)).map fun vars =>
        { s with vars } := by
  have number : Json.asNatBelow? (2 ^ 32) (.number (.ofInt s.version)) = some s.version := by
    have worth : (Numeral.ofInt s.version).quantity? = some (.integer s.version) :=
      Numeral.quantity?_ofInt (by omega) (by omega)
    simp [Json.asNatBelow?, Json.asQuantity?, worth]
    omega
  rw [ofJson?, toJson, Json.record?_ofMembers _ _ (by simp)]
  simp [Json.Record.required?, List.lookup_cons, Json.ofText, Json.asText?, Scope.ofJson?_toJson,
    number, Identifier.ofString?_text, time, Json.list?, Option.map_eq_bind, Function.comp_def]

theorem isSpelled_toJson (s : Snapshot) : s.toJson.isSpelled = true := by
  have items (vars : List Variable) : Json.areSpelled (vars.map Variable.toJson) = true := by
    induction vars with
    | nil => rfl
    | cons v rest ih => simp [Json.areSpelled, v.isSpelled_toJson, ih]
  simp [toJson, Json.ofMembers, Json.isSpelled, Json.membersSpelled, Json.ofText, Scope.toJson,
    items]

/-- The text of a snapshot is decoded like its tree. -/
theorem ofText_toText_eq_accept (s : Snapshot) :
    ofText s.toText = accept .json (ofJson? Json.maxDepth s.toJson) := by
  rw [ofText_toText, ofChars, toChars, Json.ofChars?_indentedChars s.isSpelled_toJson]
  rfl

/-- What is read from the text of a snapshot differs from it in the variables only. -/
theorem ofText_toText_eq_ok_iff (version : s.version < 2 ^ 32)
    (time : Timestamp.ofString? s.stamp.takenAt.text = some s.stamp.takenAt) {t : Snapshot} :
    ofText s.toText = .ok t ↔ t = { s with vars := t.vars } ∧ t.validate = .ok () ∧
      (s.vars.map Variable.toJson).mapM (Variable.ofJson? (Json.maxDepth - 2)) = some t.vars := by
  have depth : Json.maxDepth = Json.maxDepth - 2 + 2 := rfl
  rw [ofText_toText_eq_accept, accept_eq_ok_iff, depth, ofJson?_toJson _ version time,
    Option.map_eq_some_iff]
  constructor
  · rintro ⟨⟨vars, read, rfl⟩, valid⟩
    exact ⟨rfl, valid, read⟩
  · rintro ⟨same, valid, read⟩
    exact ⟨⟨t.vars, read, same.symm⟩, valid⟩

/-- A snapshot is read from its own text exactly if it is valid and its values are durable. -/
theorem ofText_toText_eq_self_iff (version : s.version < 2 ^ 32)
    (time : Timestamp.ofString? s.stamp.takenAt.text = some s.stamp.takenAt) :
    ofText s.toText = .ok s ↔ s.validate = .ok () ∧ ∀ v ∈ s.vars, v.value.isDurable = true := by
  have durable (v : Variable) : Variable.ofJson? (Json.maxDepth - 2) v.toJson = some v ↔
      v.value.isDurable = true := by
    rw [show Json.maxDepth - 2 = Json.maxDepth - 3 + 1 from rfl, Variable.ofJson?_toJson_iff]
    have depth : Json.maxDepth = 127 := rfl
    simp only [Value.isDurable, Bool.and_eq_true, decide_eq_true_eq]
    exact and_congr_right fun _ => by omega
  rw [ofText_toText_eq_ok_iff version time, mapM_ofJson?_toJson_iff]
  simp only [durable, true_and]

end Snapshot

end StateMachines
