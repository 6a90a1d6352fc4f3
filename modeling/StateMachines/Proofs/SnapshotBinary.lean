import StateMachines.Proofs.Stamp
import StateMachines.Snapshot.Binary

/-! # Snapshots read back from bytes

Each part of a snapshot has its width or has its length in front, so a reader takes exactly the
bytes that the part was written as, whatever follows them. A value has more bytes than levels, so
the number of bytes that are left is as deep as a reader has to go.
-/

namespace StateMachines

/-! ## Parts -/

namespace Binary

variable {α : Type} {rest : List UInt8}

/-- The width is a hypothesis, so that it can be the number that stands in a reader. -/
theorem take?_append {front : List UInt8} {n : Nat} (width : front.length = n) :
    take? n (front ++ rest) = some (front, rest) := by
  subst width
  simp [take?]

/-- A number that fits into its width is read back. -/
theorem number?_littleEndian {width n : Nat} (fits : n < 256 ^ width) :
    number? width (littleEndian width n ++ rest) = some (n, rest) := by
  rw [number?, take?_append (length_littleEndian width n)]
  simp [Nat.mod_eq_of_lt fits]

theorem fromUTF8?_toUTF8 (s : String) : String.fromUTF8? s.toUTF8 = some s := by
  rw [String.fromUTF8?, String.toUTF8_eq_toByteArray, dif_pos s.isValidUTF8]
  rfl

/-- A text is read back if its size fits into eight bytes. -/
theorem text?_textBytes {s : String} (short : s.utf8ByteSize < 2 ^ 64) :
    text? (textBytes s ++ rest) = some (s, rest) := by
  have size : s.toUTF8.data.toList.length = s.utf8ByteSize := by
    rw [Array.length_toList, String.toUTF8_eq_toByteArray]
    rfl
  have whole : s.toUTF8.data.toList.toByteArray = s.toUTF8 := by
    apply ByteArray.ext
    rw [List.data_toByteArray, Array.toArray_toList]
  rw [textBytes, text?, List.append_assoc, number?_littleEndian (by omega)]
  simp only [take?_append, whole, fromUTF8?_toUTF8, Option.map_some]

/-- Items are read back one after the other if each of them is, whatever follows it. -/
theorem items?_flatMap {item? : Reader α} {toBytes : α → List UInt8} {items : List α}
    (each : ∀ item ∈ items, ∀ rest, item? (toBytes item ++ rest) = some (item, rest)) :
    items? item? items.length (items.flatMap toBytes ++ rest) = some (items, rest) := by
  induction items with
  | nil => rfl
  | cons item items ih =>
    have others := ih fun other member => each other (List.mem_cons_of_mem _ member)
    rw [List.flatMap_cons, List.append_assoc, List.length_cons, items?,
      each item List.mem_cons_self]
    simp only [others, Option.map_some]

/-- A list is read back if its length fits into eight bytes and each item is read back. -/
theorem list?_flatMap {item? : Reader α} {toBytes : α → List UInt8} {items : List α}
    (short : items.length < 2 ^ 64)
    (each : ∀ item ∈ items, ∀ rest, item? (toBytes item ++ rest) = some (item, rest)) :
    list? item? (littleEndian 8 items.length ++ (items.flatMap toBytes ++ rest)) =
      some (items, rest) := by
  rw [list?, number?_littleEndian (by omega)]
  exact items?_flatMap each

end Binary

/-! ## Values -/

namespace Value

mutual

/-- The length of every text and of every list in the value fits into eight bytes. -/
def fits : Value → Bool
  | string s => s.utf8ByteSize < 2 ^ 64
  | list items => items.length < 2 ^ 64 && listFits items
  | _ => true

def listFits : List Value → Bool
  | [] => true
  | item :: rest => item.fits && listFits rest

end

theorem fits_of_mem {item : Value} {items : List Value} (fit : listFits items = true)
    (member : item ∈ items) : item.fits = true := by
  induction items with
  | nil => contradiction
  | cons first rest ih =>
    rw [listFits, Bool.and_eq_true] at fit
    rcases List.mem_cons.mp member with rfl | member
    · exact fit.1
    · exact ih fit.2 member

theorem listToBytes_eq_flatMap (items : List Value) :
    listToBytes items = items.flatMap toBytes := by
  induction items with
  | nil => rfl
  | cons item rest ih => rw [listToBytes, ih, List.flatMap_cons]

theorem length_toBytes_le_of_mem {item : Value} {items : List Value} (member : item ∈ items) :
    item.toBytes.length ≤ (listToBytes items).length := by
  obtain ⟨before, after, rfl⟩ := List.append_of_mem member
  simp only [listToBytes_eq_flatMap, List.flatMap_append, List.flatMap_cons, List.length_append]
  omega

/-- A value has the number of its type in front. -/
theorem read?_cons {depth case : Nat} {rest : List UInt8} (number : case < 5) :
    read? (depth + 1) (littleEndian 4 case ++ rest) = readLeaf? case rest := by
  rw [read?, Binary.number?_littleEndian (by omega)]
  match case, number with
  | 0, _ | 1, _ | 2, _ | 3, _ | 4, _ => rfl

/-- A value is read from its own bytes by a reader that goes as deep as there are bytes, and what
follows is left. -/
theorem read?_toBytes {v : Value} {depth : Nat} (fit : v.fits = true)
    (deep : v.toBytes.length ≤ depth) (rest : List UInt8) :
    read? depth (v.toBytes ++ rest) = some (v, rest) := by
  induction depth generalizing v rest with
  | zero => cases v <;> simp [toBytes] at deep
  | succ depth ih =>
    cases v with
    | null => rw [toBytes, read?_cons (by decide), readLeaf?]
    | bool b =>
      rw [toBytes, List.append_assoc, read?_cons (by decide)]
      cases b <;> rfl
    | integer n =>
      have whole : n.toUInt64.toNat < 256 ^ 8 := n.toUInt64.toNat_lt
      rw [toBytes, List.append_assoc, read?_cons (by decide), readLeaf?,
        Binary.number?_littleEndian whole]
      simp only [Option.map_some, UInt64.ofNat_toNat, Int64.toInt64_toUInt64]
    | float x =>
      have whole : x.bits.toNat < 256 ^ 8 := x.bits.toNat_lt
      rw [toBytes, List.append_assoc, read?_cons (by decide), readLeaf?,
        Binary.number?_littleEndian whole]
      simp only [Option.map_some, UInt64.ofNat_toNat]
    | string s =>
      rw [toBytes, List.append_assoc, read?_cons (by decide), readLeaf?,
        Binary.text?_textBytes (by simpa [fits] using fit)]
      rfl
    | list items =>
      simp only [fits, Bool.and_eq_true, decide_eq_true_eq] at fit
      simp only [toBytes, List.length_append, length_littleEndian] at deep
      -- The items stand in fewer bytes than the list, so the reader is deep enough for each.
      have each : ∀ item ∈ items, ∀ rest,
          read? depth (item.toBytes ++ rest) = some (item, rest) := by
        intro item member rest
        have shorter := length_toBytes_le_of_mem member
        exact ih (fits_of_mem fit.2 member) (by omega) rest
      rw [toBytes, List.append_assoc, List.append_assoc, read?,
        Binary.number?_littleEndian (by decide), listToBytes_eq_flatMap]
      simp only [Binary.list?_flatMap fit.1 each, Option.map_some]

end Value

/-! ## The parts of a snapshot -/

namespace Scope

theorem read?_toBytes (scope : Scope) (rest : List UInt8) :
    read? (scope.toBytes ++ rest) = some (scope, rest) := by
  have few : scope.index < 256 ^ 4 := by cases scope <;> decide
  rw [read?, toBytes, Binary.number?_littleEndian few]
  cases scope <;> rfl

end Scope

namespace Variable

/-- The name of the variable and its value fit. -/
def fits (v : Variable) : Bool := v.name.utf8ByteSize < 2 ^ 64 && v.value.fits

theorem read?_toBytes {v : Variable} (fit : v.fits = true) (rest : List UInt8) :
    read? (v.toBytes ++ rest) = some (v, rest) := by
  simp only [fits, Bool.and_eq_true, decide_eq_true_eq] at fit
  have deep : v.value.toBytes.length ≤ (v.value.toBytes ++ (v.scope.toBytes ++ rest)).length := by
    rw [List.length_append]
    omega
  have value := Value.read?_toBytes fit.2 deep (v.scope.toBytes ++ rest)
  simp only [read?, toBytes, List.append_assoc, Binary.text?_textBytes fit.1, Option.bind_eq_bind,
    Option.bind_some, value, Scope.read?_toBytes]

end Variable

namespace Identifier

theorem read?_toBytes (id : Identifier) (rest : List UInt8) :
    read? (id.toBytes ++ rest) = some (id, rest) := by
  have width : (littleEndian 16 id.value.toNat).reverse.length = 16 := by simp
  have whole : id.value.toNat % 256 ^ 16 = id.value.toNat := Nat.mod_eq_of_lt id.value.isLt
  rw [read?, toBytes, List.append_assoc, Binary.number?_littleEndian (by decide)]
  simp [Binary.take?_append width, whole]

end Identifier

/-! ## Snapshots -/

namespace Snapshot

/-- The lengths of the variables, of their names and of everything in their values fit into eight
bytes each. -/
def fits (s : Snapshot) : Bool := s.vars.length < 2 ^ 64 && s.vars.all Variable.fits

/-- A snapshot is read from its own bytes, unchecked, and what follows is left. -/
theorem read?_toBytes {s : Snapshot} (version : s.version < 2 ^ 32) (fit : s.fits = true)
    (time : Timestamp.ofString? s.stamp.takenAt.text = some s.stamp.takenAt) (rest : List UInt8) :
    read? (s.toBytes ++ rest) = some (s, rest) := by
  simp only [fits, Bool.and_eq_true, decide_eq_true_eq, List.all_eq_true] at fit
  have whole : s.version < 256 ^ 4 := version
  have short := Timestamp.utf8ByteSize_text_le (Timestamp.isValid_of_ofString? time)
  have vars : Binary.list? Variable.read?
      (littleEndian 8 s.vars.length ++ (s.vars.flatMap Variable.toBytes ++ rest)) =
        some (s.vars, rest) :=
    Binary.list?_flatMap fit.1 fun v member => Variable.read?_toBytes (fit.2 v member)
  simp only [read?, toBytes, List.append_assoc, Option.bind_eq_bind,
    Binary.number?_littleEndian whole, Option.bind_some, Identifier.read?_toBytes,
    Binary.text?_textBytes (s := s.stamp.takenAt.text) (by omega), time, Scope.read?_toBytes, vars]

/-- The bytes of a valid snapshot are read as that snapshot, whatever follows them, and those of any
other snapshot are refused for what is wrong with it. -/
theorem ofBytes_toBytes_append {s : Snapshot} (version : s.version < 2 ^ 32) (fit : s.fits = true)
    (time : Timestamp.ofString? s.stamp.takenAt.text = some s.stamp.takenAt) (rest : List UInt8) :
    (s.validate = .ok () → ofBytes (s.toBytes ++ rest) = .ok s) ∧
      ∀ e, s.validate = .error e → ofBytes (s.toBytes ++ rest) = .error e := by
  rw [ofBytes, read?_toBytes version fit time rest]
  refine ⟨?_, ?_⟩
  · intro valid
    simp [accept, valid, Except.map]
  · intro e refused
    simp [accept, refused, Except.map]

/-- A snapshot with a NaN in a list in a list, and a text. -/
def sample (scope : Scope) : Snapshot :=
  ⟨snapshotVersion, ⟨⟨7⟩, ⟨⟨2024, 1, 2⟩, 11045, 0⟩⟩, scope,
    [⟨"x", .list [.list [.float ⟨0x7FF8000000000001⟩], .null], .persistent⟩,
      ⟨"y", .string "é", .persistent⟩]⟩

theorem ofBytes_toBytes_append_sample :
    (∀ scope, (sample scope).version < 2 ^ 32 ∧ (sample scope).fits = true ∧
      Timestamp.ofString? (sample scope).stamp.takenAt.text = some (sample scope).stamp.takenAt) ∧
    (sample .persistent).validate = .ok () ∧
    ofBytes ((sample .persistent).toBytes ++ [255, 0]) = .ok (sample .persistent) ∧
    ofBytes ((sample .static).toBytes ++ [255, 0]) =
      .error (.scopeMismatch "x" .static .persistent) := by
  have fit (scope : Scope) : (sample scope).fits = true := by cases scope <;> decide +kernel
  have time (scope : Scope) : Timestamp.ofString? (sample scope).stamp.takenAt.text =
      some (sample scope).stamp.takenAt := by cases scope <;> decide +kernel
  have version (scope : Scope) : (sample scope).version < 2 ^ 32 := show 1 < 2 ^ 32 by decide
  have reads (scope : Scope) :=
    ofBytes_toBytes_append (version scope) (fit scope) (time scope) [255, 0]
  refine ⟨fun scope => ⟨version scope, fit scope, time scope⟩, rfl, ?_, ?_⟩
  · exact (reads .persistent).1 rfl
  · exact (reads .static).2 _ rfl

end Snapshot

end StateMachines
