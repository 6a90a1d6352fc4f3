import StateMachines.Proofs.Restoration
import StateMachines.Proofs.SnapshotBinary

/-! # Bytes that are accepted

Each part of a snapshot has one written form in bytes, the time apart, whose text may be any that is
read as the same moment. So the bytes that are read as a snapshot are the bytes of that snapshot,
with a text of its time in the place of the text of its time, and whatever follows. Bytes that end
too early are no such bytes, since what is read off their front would leave the missing end over.
-/

namespace StateMachines

/-- Bytes are the bytes of their number. -/
theorem littleEndian_ofLittleEndian (bytes : List UInt8) :
    littleEndian bytes.length (ofLittleEndian bytes) = bytes := by
  induction bytes with
  | nil => rfl
  | cons b rest ih =>
    have low := b.toNat_lt
    have first : (b.toNat + 256 * ofLittleEndian rest) % 256 = b.toNat := by omega
    have others : (b.toNat + 256 * ofLittleEndian rest) / 256 = ofLittleEndian rest := by omega
    rw [ofLittleEndian, List.length_cons, littleEndian, first, others, ih, UInt8.ofNat_toNat]

theorem ofLittleEndian_lt (bytes : List UInt8) : ofLittleEndian bytes < 256 ^ bytes.length := by
  induction bytes with
  | nil => decide
  | cons b rest ih =>
    have low := b.toNat_lt
    rw [ofLittleEndian, List.length_cons, Nat.pow_succ]
    omega

/-! ## Parts -/

namespace Binary

variable {α : Type} {bytes rest : List UInt8}

/-- What a reader answers fits, and what it took off the front is what is written of it. -/
def IsCanonical (read : Reader α) (write : α → List UInt8) (fits : α → Prop) : Prop :=
  ∀ {bytes item rest}, read bytes = some (item, rest) → fits item ∧ bytes = write item ++ rest

/-- A changed item is read where the item is. -/
theorem exists_of_map {β : Type} {found : Option (β × List UInt8)} {item : α} (change : β → α)
    (read : (found.map fun (x, after) => (change x, after)) = some (item, rest)) :
    ∃ x, found = some (x, rest) ∧ change x = item := by
  obtain ⟨⟨x, after⟩, same, changed⟩ := Option.map_eq_some_iff.mp read
  simp only [Prod.mk.injEq] at changed
  obtain ⟨rfl, rfl⟩ := changed
  exact ⟨x, same, rfl⟩

theorem take?_eq_some_iff {n : Nat} {front : List UInt8} :
    take? n bytes = some (front, rest) ↔ front.length = n ∧ bytes = front ++ rest := by
  constructor
  · intro taken
    rw [take?] at taken
    split at taken
    · next enough =>
      simp only [Option.some.injEq, Prod.mk.injEq] at taken
      obtain ⟨rfl, rfl⟩ := taken
      exact ⟨List.length_take_of_le enough, (List.take_append_drop n bytes).symm⟩
    · contradiction
  · rintro ⟨width, rfl⟩
    exact take?_append width

theorem number?_isCanonical (width : Nat) :
    IsCanonical (number? width) (littleEndian width) (· < 256 ^ width) := by
  intro bytes n rest read
  obtain ⟨front, taken, rfl⟩ := exists_of_map ofLittleEndian read
  obtain ⟨rfl, rfl⟩ := take?_eq_some_iff.mp taken
  exact ⟨ofLittleEndian_lt front, by rw [littleEndian_ofLittleEndian]⟩

/-- Only the bytes of a text are that text. -/
theorem toUTF8_of_fromUTF8? {front : List UInt8} {s : String}
    (read : String.fromUTF8? front.toByteArray = some s) : s.toUTF8.data.toList = front := by
  rw [String.fromUTF8?] at read
  split at read
  · next valid =>
    obtain rfl := Option.some.inj read
    simp [String.fromUTF8]
  · contradiction

theorem text?_isCanonical : IsCanonical text? textBytes fun s => s.utf8ByteSize < 2 ^ 64 := by
  intro bytes s rest read
  rw [text?] at read
  split at read
  · contradiction
  · next size after counted =>
    obtain ⟨fits, rfl⟩ := number?_isCanonical 8 counted
    split at read
    · contradiction
    · next front after taken =>
      obtain ⟨rfl, rfl⟩ := take?_eq_some_iff.mp taken
      obtain ⟨s, decoded, same⟩ := Option.map_eq_some_iff.mp read
      simp only [Prod.mk.injEq] at same
      obtain ⟨rfl, rfl⟩ := same
      have front := toUTF8_of_fromUTF8? decoded
      have size : s.toUTF8.data.toList.length = s.utf8ByteSize := rfl
      rw [← front, size] at fits
      exact ⟨fits, by rw [textBytes, front, List.append_assoc]⟩

/-- As many items are answered as were asked for, and they were written one after the other. -/
theorem items?_isCanonical {item? : Reader α} {write : α → List UInt8} {fits : α → Prop}
    (each : IsCanonical item? write fits) (count : Nat) :
    IsCanonical (items? item? count) (List.flatMap write)
      fun items => items.length = count ∧ ∀ item ∈ items, fits item := by
  induction count with
  | zero =>
    intro bytes items rest read
    simp only [items?, Option.some.injEq, Prod.mk.injEq] at read
    obtain ⟨rfl, rfl⟩ := read
    exact ⟨⟨rfl, by simp⟩, rfl⟩
  | succ count ih =>
    intro bytes items rest read
    rw [items?] at read
    split at read
    · contradiction
    · next item after first =>
      obtain ⟨others, later, rfl⟩ := exists_of_map (item :: ·) read
      obtain ⟨fit, rfl⟩ := each first
      obtain ⟨⟨length, fits⟩, rfl⟩ := ih later
      refine ⟨⟨by rw [List.length_cons, length], List.forall_mem_cons.mpr ⟨fit, fits⟩⟩, ?_⟩
      rw [List.flatMap_cons, List.append_assoc]

theorem list?_isCanonical {item? : Reader α} {write : α → List UInt8} {fits : α → Prop}
    (each : IsCanonical item? write fits) :
    IsCanonical (list? item?) (fun items => littleEndian 8 items.length ++ items.flatMap write)
      fun items => items.length < 2 ^ 64 ∧ ∀ item ∈ items, fits item := by
  intro bytes items rest read
  rw [list?] at read
  split at read
  · contradiction
  · next count after counted =>
    obtain ⟨short, rfl⟩ := number?_isCanonical 8 counted
    obtain ⟨⟨rfl, fits⟩, rfl⟩ := items?_isCanonical each count read
    exact ⟨⟨short, fits⟩, by rw [List.append_assoc]⟩

end Binary

/-! ## Values -/

namespace Value

theorem listFits_iff {items : List Value} :
    listFits items = true ↔ ∀ item ∈ items, item.fits = true := by
  induction items with
  | nil => simp [listFits]
  | cons item rest ih => simp [listFits, ih]

theorem readBool?_eq_some {bytes rest : List UInt8} {v : Value}
    (read : readBool? bytes = some (v, rest)) :
    ∃ b, v = bool b ∧ bytes = (if b then 1 else 0) :: rest := by
  rw [readBool?.eq_def] at read
  split at read
  · simp only [Option.some.injEq, Prod.mk.injEq] at read
    obtain ⟨rfl, rfl⟩ := read
    exact ⟨false, rfl, rfl⟩
  · simp only [Option.some.injEq, Prod.mk.injEq] at read
    obtain ⟨rfl, rfl⟩ := read
    exact ⟨true, rfl, rfl⟩
  · contradiction

/-- The contents after the number of a case other than a list. -/
theorem toBytes_of_readLeaf? {case : Nat} {bytes rest : List UInt8} {v : Value}
    (read : readLeaf? case bytes = some (v, rest)) :
    v.fits = true ∧ littleEndian 4 case ++ bytes = v.toBytes ++ rest := by
  rw [readLeaf?.eq_def] at read
  split at read
  · simp only [Option.some.injEq, Prod.mk.injEq] at read
    obtain ⟨rfl, rfl⟩ := read
    exact ⟨rfl, rfl⟩
  · obtain ⟨b, rfl, rfl⟩ := readBool?_eq_some read
    exact ⟨rfl, by rw [toBytes, List.append_assoc, List.singleton_append]⟩
  · obtain ⟨n, counted, rfl⟩ :=
      Binary.exists_of_map (fun n => integer (UInt64.ofNat n).toInt64) read
    obtain ⟨whole, rfl⟩ := Binary.number?_isCanonical 8 counted
    have back : (UInt64.ofNat n).toInt64.toUInt64.toNat = n := by
      rw [UInt64.toUInt64_toInt64, UInt64.toNat_ofNat_of_lt' whole]
    exact ⟨rfl, by rw [toBytes, back, List.append_assoc]⟩
  · obtain ⟨n, counted, rfl⟩ := Binary.exists_of_map (fun n => float ⟨.ofNat n⟩) read
    obtain ⟨whole, rfl⟩ := Binary.number?_isCanonical 8 counted
    have back : (UInt64.ofNat n).toNat = n := UInt64.toNat_ofNat_of_lt' whole
    exact ⟨rfl, by rw [toBytes, back, List.append_assoc]⟩
  · obtain ⟨s, written, rfl⟩ := Binary.exists_of_map string read
    obtain ⟨short, rfl⟩ := Binary.text?_isCanonical written
    exact ⟨by simpa [fits] using short, by rw [toBytes, List.append_assoc]⟩
  · contradiction

/-- However deep a reader goes, it takes a value for its own bytes only. -/
theorem read?_isCanonical (depth : Nat) :
    Binary.IsCanonical (read? depth) toBytes fun v => v.fits = true := by
  induction depth with
  | zero =>
    intro bytes v rest read
    contradiction
  | succ depth ih =>
    intro bytes v rest read
    rw [read?] at read
    split at read
    · contradiction
    · next after numbered =>
      obtain ⟨-, rfl⟩ := Binary.number?_isCanonical 4 numbered
      obtain ⟨items, listed, rfl⟩ := Binary.exists_of_map list read
      obtain ⟨⟨short, each⟩, rfl⟩ := Binary.list?_isCanonical ih listed
      refine ⟨?_, ?_⟩
      · simp only [fits, Bool.and_eq_true, decide_eq_true_eq]
        exact ⟨short, listFits_iff.mpr each⟩
      · simp only [toBytes, listToBytes_eq_flatMap, List.append_assoc]
    · next case after _ numbered =>
      obtain ⟨-, rfl⟩ := Binary.number?_isCanonical 4 numbered
      exact toBytes_of_readLeaf? read

end Value

/-! ## The parts of a snapshot -/

/-- A scope stands at its number. -/
theorem Scope.index_of_getElem? {n : Nat} {scope : Scope} (found : all[n]? = some scope) :
    scope.index = n := by
  rcases n with _ | _ | _ | _ | n
  case succ.succ.succ.succ => contradiction
  all_goals
    obtain rfl := Option.some.inj found
    rfl

theorem Scope.read?_isCanonical : Binary.IsCanonical Scope.read? Scope.toBytes fun _ => True := by
  intro bytes scope rest read
  rw [Scope.read?] at read
  split at read
  · contradiction
  · next n after numbered =>
    obtain ⟨-, rfl⟩ := Binary.number?_isCanonical 4 numbered
    obtain ⟨scope, found, same⟩ := Option.map_eq_some_iff.mp read
    simp only [Prod.mk.injEq] at same
    obtain ⟨rfl, rfl⟩ := same
    exact ⟨trivial, by rw [toBytes, index_of_getElem? found]⟩

theorem Variable.read?_isCanonical :
    Binary.IsCanonical Variable.read? Variable.toBytes fun v => v.fits = true := by
  intro bytes v rest read
  rw [Variable.read?] at read
  obtain ⟨⟨name, afterName⟩, named, read⟩ := Option.bind_eq_some_iff.mp read
  obtain ⟨⟨value, afterValue⟩, valued, read⟩ := Option.bind_eq_some_iff.mp read
  obtain ⟨⟨scope, after⟩, tagged, read⟩ := Option.bind_eq_some_iff.mp read
  simp only [Option.some.injEq, Prod.mk.injEq] at read
  obtain ⟨rfl, rfl⟩ := read
  obtain ⟨short, rfl⟩ := Binary.text?_isCanonical named
  obtain ⟨fit, valued⟩ := Value.read?_isCanonical _ valued
  obtain ⟨-, tagged⟩ := Scope.read?_isCanonical tagged
  refine ⟨?_, ?_⟩
  · simp only [fits, Bool.and_eq_true, decide_eq_true_eq]
    exact ⟨short, fit⟩
  · rw [toBytes, List.append_assoc, List.append_assoc, valued, tagged]

theorem Identifier.read?_isCanonical :
    Binary.IsCanonical Identifier.read? Identifier.toBytes fun _ => True := by
  intro bytes id rest read
  rw [Identifier.read?] at read
  split at read
  · next after counted =>
    obtain ⟨-, rfl⟩ := Binary.number?_isCanonical 8 counted
    obtain ⟨front, taken, rfl⟩ := Binary.exists_of_map
      (fun front : List UInt8 => (⟨.ofNat 128 (ofLittleEndian front.reverse)⟩ : Identifier)) read
    obtain ⟨width, rfl⟩ := Binary.take?_eq_some_iff.mp taken
    have length : front.reverse.length = 16 := by rw [List.length_reverse, width]
    have whole := ofLittleEndian_lt front.reverse
    rw [length] at whole
    have number : (BitVec.ofNat 128 (ofLittleEndian front.reverse)).toNat =
        ofLittleEndian front.reverse := by
      rw [BitVec.toNat_ofNat, Nat.mod_eq_of_lt whole]
    refine ⟨trivial, ?_⟩
    rw [toBytes, number, ← length, littleEndian_ofLittleEndian, List.reverse_reverse, length,
      List.append_assoc]
  · contradiction

/-! ## Snapshots -/

namespace Snapshot

/-- The bytes of a snapshot, with the given text in the place of the text of its time. -/
def bytesWith (time : String) (s : Snapshot) : List UInt8 :=
  littleEndian 4 s.version ++ s.stamp.id.toBytes ++ Binary.textBytes time
    ++ s.scope.toBytes ++ littleEndian 8 s.vars.length ++ s.vars.flatMap Variable.toBytes

theorem bytesWith_text (s : Snapshot) : s.bytesWith s.stamp.takenAt.text = s.toBytes := rfl

/-- A text of a moment in the place of the time is read as that moment, and of the version is read
what four bytes hold of it. -/
theorem read?_bytesWith {s : Snapshot} (fit : s.fits = true) {time : String}
    (short : time.utf8ByteSize < 2 ^ 64) (rest : List UInt8) :
    read? (s.bytesWith time ++ rest) = (Timestamp.ofString? time).map fun takenAt =>
      (⟨s.version % 2 ^ 32, ⟨s.stamp.id, takenAt⟩, s.scope, s.vars⟩, rest) := by
  simp only [fits, Bool.and_eq_true, decide_eq_true_eq, List.all_eq_true] at fit
  have version (rest : List UInt8) :
      Binary.number? 4 (littleEndian 4 s.version ++ rest) = some (s.version % 2 ^ 32, rest) := by
    rw [Binary.number?, Binary.take?_append (length_littleEndian 4 _)]
    simp only [Option.map_some, ofLittleEndian_littleEndian]
  have vars : Binary.list? Variable.read?
      (littleEndian 8 s.vars.length ++ (s.vars.flatMap Variable.toBytes ++ rest)) =
        some (s.vars, rest) :=
    Binary.list?_flatMap fit.1 fun v member => Variable.read?_toBytes (fit.2 v member)
  simp only [read?, bytesWith, List.append_assoc, Option.bind_eq_bind, version, Option.bind_some,
    Identifier.read?_toBytes, Binary.text?_textBytes short, Scope.read?_toBytes, vars]
  cases Timestamp.ofString? time <;> rfl

/-- What is read as a snapshot is its bytes with a text of its time, and what follows. -/
theorem bytesWith_of_read? {bytes rest : List UInt8} {s : Snapshot}
    (read : read? bytes = some (s, rest)) :
    s.version < 2 ^ 32 ∧ s.fits = true ∧ ∃ time, time.utf8ByteSize < 2 ^ 64 ∧
      Timestamp.ofString? time = some s.stamp.takenAt ∧ bytes = s.bytesWith time ++ rest := by
  rw [read?] at read
  obtain ⟨⟨version, _⟩, numbered, read⟩ := Option.bind_eq_some_iff.mp read
  obtain ⟨⟨id, _⟩, identified, read⟩ := Option.bind_eq_some_iff.mp read
  obtain ⟨⟨time, _⟩, timed, read⟩ := Option.bind_eq_some_iff.mp read
  obtain ⟨takenAt, moment, read⟩ := Option.bind_eq_some_iff.mp read
  obtain ⟨⟨scope, _⟩, tagged, read⟩ := Option.bind_eq_some_iff.mp read
  obtain ⟨⟨vars, _⟩, listed, read⟩ := Option.bind_eq_some_iff.mp read
  simp only [Option.some.injEq, Prod.mk.injEq] at read
  obtain ⟨rfl, rfl⟩ := read
  obtain ⟨whole, rfl⟩ := Binary.number?_isCanonical 4 numbered
  obtain ⟨-, identified⟩ := Identifier.read?_isCanonical identified
  obtain ⟨short, timed⟩ := Binary.text?_isCanonical timed
  obtain ⟨-, tagged⟩ := Scope.read?_isCanonical tagged
  obtain ⟨fit, listed⟩ := Binary.list?_isCanonical Variable.read?_isCanonical listed
  refine ⟨whole, ?_, time, short, moment, ?_⟩
  · simp only [fits, Bool.and_eq_true, decide_eq_true_eq, List.all_eq_true]
    exact fit
  · simp only [bytesWith, List.append_assoc] at listed ⊢
    rw [identified, timed, tagged, listed]

/-- A snapshot is decoded from its own bytes, with any text of its time, whatever follows them, and
from nothing else; it is decoded if it is valid. -/
theorem ofBytes_eq_ok_iff {bytes : List UInt8} {s : Snapshot} :
    ofBytes bytes = .ok s ↔ s.validate = .ok () ∧ s.fits = true ∧ ∃ time,
      time.utf8ByteSize < 2 ^ 64 ∧ Timestamp.ofString? time = some s.stamp.takenAt ∧
        s.bytesWith time <+: bytes := by
  rw [ofBytes, accept_eq_ok_iff]
  constructor
  · rintro ⟨found, valid⟩
    obtain ⟨⟨s, rest⟩, read, rfl⟩ := Option.map_eq_some_iff.mp found
    obtain ⟨-, fit, time, short, moment, rfl⟩ := bytesWith_of_read? read
    exact ⟨valid, fit, time, short, moment, List.prefix_append _ rest⟩
  · rintro ⟨valid, fit, time, short, moment, rest, rfl⟩
    have version : s.version % 2 ^ 32 = s.version := by
      rw [(validate_eq_ok_iff.mp valid).1]
      rfl
    refine ⟨?_, valid⟩
    rw [read?_bytesWith fit short, moment, version]
    rfl

/-- Bytes of a snapshot that end too early are not read: what was read off their front would be read
off the front of the whole, too, and leave the end over. -/
theorem read?_take {s : Snapshot} (fit : s.fits = true) {time : String}
    (short : time.utf8ByteSize < 2 ^ 64) {n : Nat} (early : n < (s.bytesWith time).length) :
    read? ((s.bytesWith time).take n) = none := by
  cases read : read? ((s.bytesWith time).take n) with
  | none => rfl
  | some found =>
    obtain ⟨other, rest⟩ := found
    obtain ⟨version, fit', time', short', moment, front⟩ := bytesWith_of_read? read
    have whole : s.bytesWith time ++ [] =
        other.bytesWith time' ++ (rest ++ (s.bytesWith time).drop n) := by
      rw [List.append_nil, ← List.append_assoc, ← front, List.take_append_drop]
    have left := read?_bytesWith fit short []
    rw [whole, read?_bytesWith fit' short', moment] at left
    obtain ⟨_, -, same⟩ := Option.map_eq_some_iff.mp left.symm
    have nothingLeft : rest ++ (s.bytesWith time).drop n = [] := (Prod.mk.inj same).2.symm
    have nothingDropped := (List.append_eq_nil_iff.mp nothingLeft).2
    exact absurd (List.drop_eq_nil_iff.mp nothingDropped) (Nat.not_le_of_lt early)

/-- Only the bytes of a valid snapshot are decoded to it, with any text of its time in the place of
the text of its time, whatever follows them. And the bytes of any snapshot, valid or not, whose
lengths fit into eight bytes each are malformed if they end too early. -/
theorem ofBytes_canonical :
    (∀ bytes s, ofBytes bytes = .ok s ↔ s.validate = .ok () ∧ s.fits = true ∧ ∃ time,
      time.utf8ByteSize < 2 ^ 64 ∧ Timestamp.ofString? time = some s.stamp.takenAt ∧
        s.bytesWith time <+: bytes) ∧
    ∀ s : Snapshot, s.fits = true → s.stamp.takenAt.text.utf8ByteSize < 2 ^ 64 →
      ∀ n < s.toBytes.length, ofBytes (s.toBytes.take n) = .error (.malformed .binary) := by
  constructor
  · intro bytes s
    exact ofBytes_eq_ok_iff
  · intro s fit short n early
    rw [← bytesWith_text] at early ⊢
    rw [ofBytes, read?_take fit short early]
    rfl

theorem ofBytes_canonical_sample :
    Timestamp.ofString? "2024-01-02T04:04:05+01:00" = some (sample .persistent).stamp.takenAt ∧
    ofBytes ((sample .persistent).bytesWith "2024-01-02T04:04:05+01:00" ++ [255, 0]) =
      .ok (sample .persistent) ∧
    (sample .persistent).toBytes.length = 148 ∧
    ∀ n < 148, ofBytes ((sample .persistent).toBytes.take n) = .error (.malformed .binary) := by
  have fit : (sample .persistent).fits = true := by decide +kernel
  have length : (sample .persistent).toBytes.length = 148 := by decide +kernel
  have moment : Timestamp.ofString? "2024-01-02T04:04:05+01:00" =
      some (sample .persistent).stamp.takenAt := by decide +kernel
  refine ⟨moment, ?_, length, ?_⟩
  · exact (ofBytes_canonical.1 _ _).mpr
      ⟨rfl, fit, _, by decide +kernel, moment, List.prefix_append _ _⟩
  · rw [← length]
    exact ofBytes_canonical.2 _ fit (by decide +kernel)

end Snapshot

end StateMachines
