import StateMachines.Proofs.SnapshotJson

/-! # Where reading a snapshot undoes writing it

Strings, integers, scopes, identifiers and the order of the variables survive in any text. What can
be lost is what validation refuses, floats whose digits are not worth them, and everything if the
text nests deeper than is read. Each of the three is stated without the reader of snapshots: floats
by reading their digits alone, and nesting by the tree of the text.
-/

namespace StateMachines

/-! ## Nesting -/

namespace Json

mutual

/-- How many arrays and objects stand one in another. -/
def nesting : Json → Nat
  | array items => itemsNesting items + 1
  | object members => membersNesting members + 1
  | _ => 0

def itemsNesting : List Json → Nat
  | [] => 0
  | item :: rest => max item.nesting (itemsNesting rest)

def membersNesting : List (Option String × Json) → Nat
  | [] => 0
  | (_, value) :: rest => max value.nesting (membersNesting rest)

end

theorem itemsNesting_le_iff {items : List Json} {limit : Nat} :
    itemsNesting items ≤ limit ↔ ∀ item ∈ items, item.nesting ≤ limit := by
  induction items with
  | nil => simp [itemsNesting]
  | cons item rest ih => rw [itemsNesting, Nat.max_le, ih, List.forall_mem_cons]

/-- The text is that of a tree in which at most so many arrays and objects stand one in another. -/
def NestsWithin (limit : Nat) (text : String) : Prop :=
  ∃ j, ofString? text = some j ∧ j.nesting ≤ limit

theorem nestsWithin_indented {j : Json} (spelled : j.isSpelled = true) (limit : Nat) :
    NestsWithin limit (.ofList (j.indentedChars 0)) ↔ j.nesting ≤ limit := by
  simp [NestsWithin, ofChars?_indentedChars spelled]

/-- The double that the text of a number is worth. -/
def binary64OfText? (text : String) : Option Binary64 :=
  ((ofString? text).bind asQuantity?).map Quantity.toBinary64

end Json

/-! ## Values -/

namespace Value

mutual

/-- The floats anywhere in a value. -/
def floats : Value → List Binary64
  | float x => [x]
  | list items => listFloats items
  | _ => []

def listFloats : List Value → List Binary64
  | [] => []
  | item :: rest => item.floats ++ listFloats rest

end

/-- The digits with which a float is written. -/
def digitText (x : Binary64) : String := (x.numeral jsonStyle).text

/-- A float is read back if it is finite and its digits, read on their own, are worth it. -/
theorem readsBack_float_iff (x : Binary64) : x.readsBack = true ↔
    x.isFinite = true ∧ Json.binary64OfText? (digitText x) = some x := by
  have tree : Json.ofString? (digitText x) = some (.number (x.numeral jsonStyle)) := by
    rw [digitText, Numeral.text, Json.ofString?_ofList]
    exact Json.ofChars?_indentedChars (j := .number _) rfl 0
  simp [Binary64.readsBack, Json.binary64OfText?, tree, Json.asQuantity?]

mutual

theorem readsBack_iff : (v : Value) → (v.readsBack = true ↔ ∀ x ∈ v.floats, x.readsBack = true)
  | float x => by simp [readsBack, floats]
  | list items => listReadsBack_iff items
  | null | bool _ | integer _ | string _ => by simp [readsBack, floats]

theorem listReadsBack_iff : (items : List Value) →
    (listReadsBack items = true ↔ ∀ x ∈ listFloats items, x.readsBack = true)
  | [] => by simp [listReadsBack, listFloats]
  | item :: rest => by
    simp only [listReadsBack, listFloats, Bool.and_eq_true, List.mem_append, or_imp, forall_and,
      readsBack_iff item, listReadsBack_iff rest]

end

mutual

/-- The levels of a value are those of its tree. -/
theorem nesting_toJson : (v : Value) → v.toJson.nesting = v.levels
  | list items => by
    simp [toJson, Json.tagged, Json.nesting, Json.membersNesting, levels,
      itemsNesting_listToJson items]
  | float x => by
    cases finite : x.isFinite <;>
      simp [toJson, floatToJson, finite, Json.tagged, Json.nesting, Json.membersNesting, levels]
  | null | bool _ | integer _ | string _ => rfl

theorem itemsNesting_listToJson : (items : List Value) →
    Json.itemsNesting (listToJson items) = listLevels items
  | [] => rfl
  | item :: rest => by
    rw [listToJson, Json.itemsNesting, listLevels, nesting_toJson item,
      itemsNesting_listToJson rest]

end

end Value

/-! ## Snapshots -/

theorem Variable.nesting_toJson (v : Variable) : v.toJson.nesting = v.value.levels + 1 := by
  simp [toJson, Json.ofMembers, Json.nesting, Json.membersNesting, Json.ofText, Scope.toJson,
    Value.nesting_toJson]

namespace Snapshot

variable {s : Snapshot}

/-- The record of the snapshot, the list of the variables and the record of each stand around the
values. -/
theorem nesting_toJson_le_iff {limit : Nat} : s.toJson.nesting ≤ limit + 3 ↔
    ∀ v ∈ s.vars, v.value.levels ≤ limit := by
  have inner : Json.itemsNesting (s.vars.map Variable.toJson) ≤ limit + 1 ↔
      ∀ v ∈ s.vars, v.value.levels ≤ limit := by
    simp [Json.itemsNesting_le_iff, Variable.nesting_toJson]
  rw [← inner]
  simp [toJson, Json.ofMembers, Json.nesting, Json.membersNesting, Json.ofText, Scope.toJson]

/-- The text of a snapshot is that of its tree. -/
theorem ofString?_toText (s : Snapshot) : Json.ofString? s.toText = some s.toJson := by
  rw [toText, Json.ofString?_ofList, toChars]
  exact Json.ofChars?_indentedChars s.isSpelled_toJson 0

/-- The snapshot that a JSON text holds, unchecked. -/
def decode? (text : String) : Option Snapshot :=
  (Json.ofString? text).bind (ofJson? Json.maxDepth)

theorem ofText_eq_accept (text : String) : ofText text = accept .json (decode? text) := rfl

/-- Only the version, the scopes and the names are checked. -/
theorem checkVariables_congr {scope : Scope} {seen : List String} {vars others : List Variable}
    (same : List.Forall₂ (fun v w : Variable => v.name = w.name ∧ v.scope = w.scope) vars others) :
    checkVariables scope seen vars = checkVariables scope seen others := by
  induction same generalizing seen with
  | nil => rfl
  | cons first _ ih => rw [checkVariables, checkVariables, first.1, first.2, ih]

/-- A variable that is read from the tree of another one has its name and its scope. -/
theorem forall₂_of_mapM_ofJson? {room : Nat} {vars found : List Variable}
    (read : (vars.map Variable.toJson).mapM (Variable.ofJson? (room + 1)) = some found) :
    List.Forall₂ (fun v w : Variable => v.name = w.name ∧ v.scope = w.scope) found vars := by
  induction vars generalizing found with
  | nil =>
    obtain rfl : [] = found := by simpa using read
    exact .nil
  | cons v rest ih =>
    simp only [List.map_cons, List.mapM_cons, Option.pure_def, Option.bind_eq_bind,
      Option.bind_eq_some_iff, Option.some.injEq] at read
    obtain ⟨w, first, others, after, rfl⟩ := read
    rw [Variable.ofJson?_toJson, Option.map_eq_some_iff] at first
    obtain ⟨value, -, rfl⟩ := first
    exact .cons ⟨rfl, rfl⟩ (ih after)

/-- What is decoded from the text of a snapshot is checked like that snapshot. -/
theorem validate_of_decode? {t : Snapshot} (version : s.version < 2 ^ 32)
    (time : Timestamp.ofString? s.stamp.takenAt.text = some s.stamp.takenAt)
    (decoded : decode? s.toText = some t) : t.validate = s.validate := by
  have depth : Json.maxDepth = Json.maxDepth - 3 + 1 + 2 := rfl
  rw [decode?, ofString?_toText, Option.bind_some, depth, ofJson?_toJson _ version time,
    Option.map_eq_some_iff] at decoded
  obtain ⟨vars, read, rfl⟩ := decoded
  simp only [validate, checkVariables_congr (forall₂_of_mapM_ofJson? read)]

/-- The text of a snapshot is read as that snapshot exactly if it is valid, each float in it is
finite and read back from its digits, and the text nests no deeper than is read. What can be decoded
from the text of another one is refused for what is wrong with that one. -/
theorem ofText_toText_exact (version : s.version < 2 ^ 32)
    (time : Timestamp.ofString? s.stamp.takenAt.text = some s.stamp.takenAt) :
    (ofText s.toText = .ok s ↔ s.validate = .ok () ∧
      (∀ v ∈ s.vars, ∀ x ∈ v.value.floats,
        x.isFinite = true ∧ Json.binary64OfText? (Value.digitText x) = some x) ∧
      Json.NestsWithin 127 s.toText) ∧
    ∀ e, (decode? s.toText).isSome = true → s.validate = .error e → ofText s.toText = .error e := by
  refine ⟨?_, ?_⟩
  · have nests : Json.NestsWithin 127 s.toText ↔ ∀ v ∈ s.vars, v.value.levels ≤ 124 :=
      (Json.nestsWithin_indented s.isSpelled_toJson 127).trans nesting_toJson_le_iff
    have durable (v : Variable) : v.value.isDurable = true ↔
        (∀ x ∈ v.value.floats,
          x.isFinite = true ∧ Json.binary64OfText? (Value.digitText x) = some x) ∧
        v.value.levels ≤ 124 := by
      have room : v.value.levels + 3 ≤ Json.maxDepth ↔ v.value.levels ≤ 124 := by
        rw [Json.maxDepth]
        omega
      simp only [Value.isDurable, Bool.and_eq_true, decide_eq_true_eq, room, Value.readsBack_iff,
        Value.readsBack_float_iff]
    rw [ofText_toText_eq_self_iff version time, nests]
    simp only [durable, forall_and]
  · intro e decodes refused
    obtain ⟨t, decoded⟩ := Option.isSome_iff_exists.mp decodes
    have checked := (validate_of_decode? version time decoded).trans refused
    simp [ofText_eq_accept, decoded, accept, checked, Except.map]

/-- A snapshot with a name that is written with escapes, and a tenth in a list in a list. -/
def quoted (scope : Scope) : Snapshot :=
  ⟨snapshotVersion, ⟨⟨7⟩, ⟨⟨2024, 1, 2⟩, 11045, 0⟩⟩, scope,
    [⟨"\"é\n", .list [.list [.float ⟨0x3FB999999999999A⟩], .integer (-3)], .persistent⟩]⟩

theorem ofText_toText_exact_quoted :
    (∀ scope, (quoted scope).version < 2 ^ 32 ∧
      Timestamp.ofString? (quoted scope).stamp.takenAt.text = some (quoted scope).stamp.takenAt) ∧
    ofText (quoted .persistent).toText = .ok (quoted .persistent) ∧
    ofText (quoted .static).toText = .error (.scopeMismatch "\"é\n" .static .persistent) := by
  have time (scope : Scope) : Timestamp.ofString? (quoted scope).stamp.takenAt.text =
      some (quoted scope).stamp.takenAt := by cases scope <;> decide +kernel
  have version (scope : Scope) : (quoted scope).version < 2 ^ 32 := show 1 < 2 ^ 32 by decide
  have reads (scope : Scope) := ofText_toText_exact (version scope) (time scope)
  have tenth : ∀ v ∈ (quoted .persistent).vars, ∀ x ∈ v.value.floats,
      x.isFinite = true ∧ Json.binary64OfText? (Value.digitText x) = some x := by decide +kernel
  have shallow : Json.NestsWithin 127 (quoted .persistent).toText :=
    ⟨_, ofString?_toText _, by decide +kernel⟩
  have decodes : (decode? (quoted .static).toText).isSome = true := by
    rw [decode?, ofString?_toText]
    decide +kernel
  refine ⟨fun scope => ⟨version scope, time scope⟩, ?_, ?_⟩
  · exact (reads .persistent).1.mpr ⟨rfl, tenth, shallow⟩
  · exact (reads .static).2 _ decodes rfl

end Snapshot

end StateMachines
