import StateMachines.Snapshot.Basic

/-! # Snapshots as bytes

Numbers are little endian and have a fixed width. A list or a text has its length in front, as
eight bytes, and a case its number, as four. The identifier is written as a list of sixteen bytes,
the time as text. Reading takes each part off the front of the bytes; what follows a snapshot is
ignored.
-/

namespace StateMachines

/-- The bytes of a number, lowest first. -/
def littleEndian : (width : Nat) → Nat → List UInt8
  | 0, _ => []
  | width + 1, n => .ofNat (n % 256) :: littleEndian width (n / 256)

/-- The number of some bytes, lowest first. -/
def ofLittleEndian : List UInt8 → Nat
  | [] => 0
  | b :: rest => b.toNat + 256 * ofLittleEndian rest

@[simp] theorem length_littleEndian (width n : Nat) : (littleEndian width n).length = width := by
  induction width generalizing n with
  | zero => rfl
  | succ width ih => simp [littleEndian, ih]

/-- Bytes are read back as the part of the number that they hold. -/
@[simp] theorem ofLittleEndian_littleEndian (width n : Nat) :
    ofLittleEndian (littleEndian width n) = n % 256 ^ width := by
  induction width generalizing n with
  | zero => simp [littleEndian, ofLittleEndian, Nat.mod_one]
  | succ width ih =>
    rw [littleEndian, ofLittleEndian, ih, Nat.pow_succ', Nat.mod_mul]
    simp

namespace Binary

/-- A reader takes a part off the front of some bytes and answers the rest. -/
abbrev Reader (α : Type) := List UInt8 → Option (α × List UInt8)

/-- The given number of bytes. -/
def take? (n : Nat) : Reader (List UInt8) := fun bytes =>
  if n ≤ bytes.length then some (bytes.take n, bytes.drop n) else none

/-- A number of the given width. -/
def number? (width : Nat) : Reader Nat := fun bytes =>
  (take? width bytes).map fun (front, rest) => (ofLittleEndian front, rest)

/-- The given number of items, one after the other. -/
def items? {α : Type} (item? : Reader α) : (count : Nat) → Reader (List α)
  | 0, bytes => some ([], bytes)
  | count + 1, bytes =>
    match item? bytes with
    | none => none
    | some (item, rest) =>
      (items? item? count rest).map fun (items, after) => (item :: items, after)

/-- A list: its length, then its items. -/
def list? {α : Type} (item? : Reader α) : Reader (List α) := fun bytes =>
  match number? 8 bytes with
  | none => none
  | some (count, rest) => items? item? count rest

/-- A text: its length in bytes, then its bytes. -/
def text? : Reader String := fun bytes =>
  match number? 8 bytes with
  | none => none
  | some (size, rest) =>
    match take? size rest with
    | none => none
    | some (front, after) => (String.fromUTF8? front.toByteArray).map fun s => (s, after)

/-- A text in UTF-8 after the number of its bytes. -/
def textBytes (s : String) : List UInt8 :=
  let bytes := s.toUTF8.data.toList
  littleEndian 8 bytes.length ++ bytes

end Binary

namespace Value

mutual

/-- A value is the number of its type, then its contents. -/
def toBytes : Value → List UInt8
  | null => littleEndian 4 0
  | bool b => littleEndian 4 1 ++ [if b then 1 else 0]
  | integer n => littleEndian 4 2 ++ littleEndian 8 n.toUInt64.toNat
  | float x => littleEndian 4 3 ++ littleEndian 8 x.bits.toNat
  | string s => littleEndian 4 4 ++ Binary.textBytes s
  | list items => littleEndian 4 5 ++ littleEndian 8 items.length ++ listToBytes items

def listToBytes : List Value → List UInt8
  | [] => []
  | item :: rest => item.toBytes ++ listToBytes rest

end

/-- A boolean is one byte, 0 or 1. -/
def readBool? : Binary.Reader Value
  | 0 :: rest => some (bool false, rest)
  | 1 :: rest => some (bool true, rest)
  | _ => none

/-- The contents of a value without parts, after the number of its case. -/
def readLeaf? (case : Nat) : Binary.Reader Value := fun bytes =>
  match case with
  | 0 => some (null, bytes)
  | 1 => readBool? bytes
  | 2 => (Binary.number? 8 bytes).map fun (n, rest) => (integer (UInt64.ofNat n).toInt64, rest)
  | 3 => (Binary.number? 8 bytes).map fun (n, rest) => (float ⟨.ofNat n⟩, rest)
  | 4 => (Binary.text? bytes).map fun (s, rest) => (string s, rest)
  | _ => none

/-- A value of at most the given depth. -/
def read? : (depth : Nat) → Binary.Reader Value
  | 0, _ => none
  | depth + 1, bytes =>
    match Binary.number? 4 bytes with
    | none => none
    | some (5, rest) =>
      (Binary.list? (read? depth) rest).map fun (items, after) => (list items, after)
    | some (case, rest) => readLeaf? case rest

end Value

namespace Scope

/-- The number of a scope. -/
def index : Scope → Nat
  | eventData => 0
  | machineLocal => 1
  | persistent => 2
  | static => 3

def toBytes (scope : Scope) : List UInt8 := littleEndian 4 scope.index

/-- A scope by its number. -/
def read? : Binary.Reader Scope := fun bytes =>
  match Binary.number? 4 bytes with
  | none => none
  | some (n, rest) => all[n]?.map fun scope => (scope, rest)

end Scope

namespace Variable

/-- The name, the value and the scope. -/
def toBytes (v : Variable) : List UInt8 :=
  Binary.textBytes v.name ++ v.value.toBytes ++ v.scope.toBytes

/-- A variable; a value is no deeper than there are bytes. -/
def read? : Binary.Reader Variable := fun bytes => do
  let (name, bytes) ← Binary.text? bytes
  let (value, bytes) ← Value.read? bytes.length bytes
  let (scope, bytes) ← Scope.read? bytes
  some (⟨name, value, scope⟩, bytes)

end Variable

namespace Identifier

/-- The sixteen bytes of an identifier, highest first, after their number. -/
def toBytes (id : Identifier) : List UInt8 :=
  littleEndian 8 16 ++ (littleEndian 16 id.value.toNat).reverse

/-- An identifier after the number sixteen. -/
def read? : Binary.Reader Identifier := fun bytes =>
  match Binary.number? 8 bytes with
  | some (16, rest) =>
    (Binary.take? 16 rest).map fun (front, after) =>
      (⟨.ofNat 128 (ofLittleEndian front.reverse)⟩, after)
  | _ => none

end Identifier

namespace Snapshot

/-- The bytes of a snapshot. -/
def toBytes (s : Snapshot) : List UInt8 :=
  littleEndian 4 s.version ++ s.stamp.id.toBytes ++ Binary.textBytes s.stamp.takenAt.text
    ++ s.scope.toBytes ++ littleEndian 8 s.vars.length ++ s.vars.flatMap Variable.toBytes

/-- The snapshot at the front of some bytes, unchecked. -/
def read? : Binary.Reader Snapshot := fun bytes => do
  let (version, bytes) ← Binary.number? 4 bytes
  let (id, bytes) ← Identifier.read? bytes
  let (time, bytes) ← Binary.text? bytes
  let takenAt ← Timestamp.ofString? time
  let (scope, bytes) ← Scope.read? bytes
  let (vars, bytes) ← Binary.list? Variable.read? bytes
  some (⟨version, ⟨id, takenAt⟩, scope, vars⟩, bytes)

/-- The valid snapshot at the front of some bytes. -/
def ofBytes (bytes : List UInt8) : Except SnapshotError Snapshot :=
  accept .binary ((read? bytes).map Prod.fst)

end Snapshot

end StateMachines
