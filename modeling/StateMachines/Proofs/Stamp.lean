import StateMachines.Snapshot.Basic

/-! # Stamps read back

Every identifier is read from its own text, and so is every moment that a clock can show: the parts
of its text have fixed widths, but for the year, and nothing that ends a part is a digit.
-/

namespace StateMachines

/-! ## Identifiers -/

namespace Identifier

theorem length_hyphenate {sizes : List Nat} {cs : List Char} (filled : sizes ≠ [])
    (total : cs.length = sizes.foldr (· + ·) 0) :
    (hyphenate sizes cs).length + 1 = cs.length + sizes.length := by
  induction sizes generalizing cs with
  | nil => contradiction
  | cons size rest ih =>
    cases rest with
    | nil =>
      simp only [List.foldr_cons, List.foldr_nil] at total
      simp [hyphenate]
      omega
    | cons next rest =>
      simp only [List.foldr_cons] at total
      have tail := @ih (cs.drop size) (by simp) (by simp; omega)
      simp only [List.length_drop, List.length_cons] at tail
      simp only [hyphenate, List.length_append, List.length_take, List.length_cons]
      omega

theorem joinGroups?_hyphenate {sizes : List Nat} {cs : List Char} (filled : sizes ≠ [])
    (total : cs.length = sizes.foldr (· + ·) 0) :
    joinGroups? sizes (hyphenate sizes cs) = some cs := by
  induction sizes generalizing cs with
  | nil => contradiction
  | cons size rest ih =>
    cases rest with
    | nil =>
      obtain rfl : cs.length = size := by simpa using total
      simp [hyphenate, joinGroups?]
    | cons next rest =>
      simp only [List.foldr_cons] at total
      have tail := @ih (cs.drop size) (by simp) (by simp; omega)
      have front : (cs.take size).length = size := by
        rw [List.length_take]
        omega
      simp only [hyphenate, joinGroups?]
      rw [List.drop_left' front, List.take_left' front]
      simp [tail]

/-- An identifier is read from its own text. -/
theorem ofString?_text (id : Identifier) : ofString? id.text = some id := by
  have total : (Hexadecimal.fixed 32 id.value.toNat).length = groups.foldr (· + ·) 0 := by
    rw [Hexadecimal.length_fixed]
    rfl
  have length : (hyphenate groups (Hexadecimal.fixed 32 id.value.toNat)).length = 36 := by
    have := length_hyphenate (by decide) total
    rw [Hexadecimal.length_fixed] at this
    simpa [groups] using this
  have whole : id.value.toNat % 16 ^ 32 = id.value.toNat := Nat.mod_eq_of_lt id.value.isLt
  simp only [ofString?, text, String.toList_ofList, hexDigits?, length, Nat.reduceEqDiff, if_false,
    if_true, joinGroups?_hyphenate (by decide) total, Option.bind_eq_bind, Option.bind_some,
    Hexadecimal.read?_fixed, whole, BitVec.ofNat_toNat, BitVec.setWidth_eq]

end Identifier

/-! ## Moments -/

namespace Date

theorem daysInMonth_le (year : Int) (month : Nat) : daysInMonth year month ≤ 31 := by
  unfold daysInMonth
  split
  · split <;> omega
  · split <;> omega

/-- The month and the day of a date that exists fit into two digits. -/
theorem bounds_of_isValid {date : Date} (valid : date.isValid = true) :
    1 ≤ date.month ∧ date.month ≤ 12 ∧ 1 ≤ date.day ∧ date.day ≤ 31 := by
  have most := daysInMonth_le date.year date.month
  simp only [isValid, Bool.and_eq_true, decide_eq_true_eq] at valid
  omega

end Date

namespace Timestamp

/-- A moment that a clock can show: its day exists, its second is one of that day, and only the last
second of a minute may be a leap second. -/
def isValid (t : Timestamp) : Bool :=
  t.date.isValid && t.second < 86400 &&
    (t.nano < 10 ^ 9 || t.nano < 2 * 10 ^ 9 && t.second % 60 == 59)

variable {rest : List Char}

theorem takeDigits_chars {ds : List Digit} {limit : Nat} (short : ds.length ≤ limit)
    (stop : ds.length = limit ∨ rest.head?.bind Digit.ofChar? = none) :
    takeDigits limit (ds.map Digit.char ++ rest) = (ds, rest) := by
  induction ds generalizing limit with
  | nil =>
    cases limit with
    | zero => rfl
    | succ limit =>
      cases rest with
      | nil => rfl
      | cons c rest =>
        have stop : Digit.ofChar? c = none := by simpa using stop
        simp [takeDigits, stop]
  | cons d ds ih =>
    cases limit with
    | zero => simp at short
    | succ limit =>
      have tail := @ih limit (by simpa using short) (by simpa using stop)
      simp [takeDigits, tail]

theorem number?_chars {ds : List Digit} {limit : Nat} (filled : ds ≠ []) (short : ds.length ≤ limit)
    (stop : ds.length = limit ∨ rest.head?.bind Digit.ofChar? = none) :
    number? limit (ds.map Digit.char ++ rest) = some (ofDigits ds, rest) := by
  rw [number?, takeDigits_chars short stop]
  cases ds with
  | nil => contradiction
  | cons d ds => rfl

theorem trimStart_cons {c : Char} (dark : Text.isBlank c = false) :
    Text.trimStart (c :: rest) = c :: rest := by
  simp [Text.trimStart, dark]

theorem isBlank_char (d : Digit) : Text.isBlank d.char = false := by
  revert d
  decide

theorem trimStart_chars {ds : List Digit} (filled : ds ≠ []) :
    Text.trimStart (ds.map Digit.char ++ rest) = ds.map Digit.char ++ rest := by
  cases ds with
  | nil => contradiction
  | cons d ds => exact trimStart_cons (isBlank_char d)

theorem mark?_cons {c : Char} (dark : Text.isBlank c = false) :
    mark? c (c :: rest) = some rest := by
  simp [mark?, trimStart_cons dark]

/-- Two digits are a field. -/
theorem field?_fixedChars {low high n : Nat} (within : low ≤ n ∧ n ≤ high) (small : n < 100) :
    field? low high (fixedChars 2 n ++ rest) = some (n, rest) := by
  have filled : fixedDigits 2 n ≠ [] := by
    intro none
    simpa [none] using length_fixedDigits 2 n
  have read : number? 2 (fixedChars 2 n ++ rest) = some (n, rest) := by
    rw [fixedChars, number?_chars filled (by simp) (.inl (length_fixedDigits 2 n)),
      ofDigits_fixedDigits, Nat.mod_eq_of_lt small]
  have untrimmed : Text.trimStart (fixedChars 2 n ++ rest) = fixedChars 2 n ++ rest :=
    trimStart_chars filled
  rw [field?, untrimmed, read]
  exact if_pos within

/-- A year is read up to the hyphen after it. -/
theorem year?_yearChars (year : Int) :
    year? (yearChars year ++ '-' :: rest) = some (year, '-' :: rest) := by
  obtain ⟨ds, shape, filled, worth, short⟩ : ∃ ds : List Digit,
      (if year.natAbs < 10000 then fixedChars 4 year.natAbs else digitChars year.natAbs) =
        ds.map Digit.char ∧ ds ≠ [] ∧ ofDigits ds = year.natAbs ∧
        (year.natAbs < 10000 → ds.length = 4) := by
    by_cases small : year.natAbs < 10000
    · refine ⟨fixedDigits 4 year.natAbs, by simp [small, fixedChars], ?_, ?_, fun _ => by simp⟩
      · intro none
        simpa [none] using length_fixedDigits 4 year.natAbs
      · rw [ofDigits_fixedDigits, Nat.mod_eq_of_lt small]
    · exact ⟨digits year.natAbs, by simp [small, digitChars], digits_ne_nil _, ofDigits_digits _,
        fun other => absurd other small⟩
  have stop : ('-' :: rest).head?.bind Digit.ofChar? = none := by
    rw [List.head?_cons]
    decide
  have signed :
      number? (ds.map Digit.char ++ '-' :: rest).length (ds.map Digit.char ++ '-' :: rest) =
        some (year.natAbs, '-' :: rest) := by
    rw [number?_chars filled (by simp) (.inr stop), worth]
  simp only [yearChars, shape]
  by_cases negative : year < 0
  · have value : -(year.natAbs : Int) = year := by omega
    have dark : Text.isBlank '-' = false := by decide
    simp only [negative, if_true, List.cons_append, year?, trimStart_cons dark, signed,
      Option.map_some, value]
  · have value : (year.natAbs : Int) = year := by omega
    by_cases four : year < 10000
    · have read :
          number? 4 (ds.map Digit.char ++ '-' :: rest) = some (year.natAbs, '-' :: rest) := by
        have length := short (by omega)
        rw [number?_chars filled (Nat.le_of_eq length) (.inl length), worth]
      simp only [negative, four, if_true, if_false, year?, trimStart_chars filled]
      cases ds with
      | nil => contradiction
      | cons d ds =>
        have plain : d.char ≠ '-' ∧ d.char ≠ '+' := by
          clear shape worth short signed read filled
          revert d
          decide
        simp only [List.map_cons, List.cons_append] at read ⊢
        split
        · next same => exact absurd (List.cons.inj same).1 plain.1
        · next same => exact absurd (List.cons.inj same).1 plain.2
        · simp [read, value]
    · have dark : Text.isBlank '+' = false := by decide
      simp only [negative, four, if_false, List.cons_append, year?, trimStart_cons dark, signed,
        Option.map_some, value]

/-- The decimals of a second are read up to the `Z` after them. -/
theorem nano?_fractionChars {nano : Nat} (bound : nano < 10 ^ 9) :
    nano? (fractionChars nano ++ ['Z']) = some (nano, ['Z']) := by
  have decimals (width k : Nat) (wide : 0 < width) (most : width ≤ 9) (fits : k < 10 ^ width) :
      nano? ('.' :: fixedChars width k ++ ['Z']) = some (k * 10 ^ (9 - width), ['Z']) := by
    have taken : takeDigits 9 (fixedChars width k ++ ['Z']) = (fixedDigits width k, ['Z']) :=
      takeDigits_chars (by simpa using most) (.inr (by decide))
    have worth := ofDigits_fixedDigits width k
    have length := length_fixedDigits width k
    rw [List.cons_append, nano?, taken]
    cases shape : fixedDigits width k with
    | nil => simp [shape] at length; omega
    | cons d ds =>
      rw [shape, Nat.mod_eq_of_lt fits] at worth
      rw [shape] at length
      simp only [worth, length]
      rfl
  unfold fractionChars
  split
  · next none => subst none; rfl
  split
  · next milli =>
    rw [decimals 3 _ (by decide) (by decide) (by omega)]
    congr 2
    omega
  split
  · next micro =>
    rw [decimals 6 _ (by decide) (by decide) (by omega)]
    congr 2
    omega
  · rw [decimals 9 _ (by decide) (by decide) bound]
    simp

/-- Universal time is itself. -/
theorem ofLocal?_universal {date : Date} {second nano : Nat} (valid : date.isValid = true)
    (day : second < 86400) : ofLocal? date second nano 0 = some ⟨date, second, nano⟩ := by
  have early : ¬ (second : Int) < 0 := by omega
  have late : (second : Int) < 86400 := by omega
  simp [ofLocal?, valid, early, late]

/-- A moment that a clock can show is read from its own text. -/
theorem ofString?_text {t : Timestamp} (valid : t.isValid = true) :
    ofString? t.text = some t := by
  simp only [isValid, Bool.and_eq_true, Bool.or_eq_true, decide_eq_true_eq, beq_iff_eq] at valid
  obtain ⟨⟨date, day⟩, nano⟩ := valid
  have bounds := Date.bounds_of_isValid date
  have hyphen : Text.isBlank '-' = false := by decide
  have colon : Text.isBlank ':' = false := by decide
  have ended : (Text.trimStart []).isEmpty = true := rfl
  have zone : offset? (Text.trimStart ['Z']) = some (0, []) := by decide
  have month (cs : List Char) :
      field? 1 12 (fixedChars 2 t.date.month ++ cs) = some (t.date.month, cs) :=
    field?_fixedChars (by omega) (by omega)
  have monthDay (cs : List Char) :
      field? 1 31 (fixedChars 2 t.date.day ++ cs) = some (t.date.day, cs) :=
    field?_fixedChars (by omega) (by omega)
  have hour (cs : List Char) :
      field? 0 23 (fixedChars 2 (t.second / 3600) ++ cs) = some (t.second / 3600, cs) :=
    field?_fixedChars (by omega) (by omega)
  have minute (cs : List Char) :
      field? 0 59 (fixedChars 2 (t.second / 60 % 60) ++ cs) = some (t.second / 60 % 60, cs) :=
    field?_fixedChars (by omega) (by omega)
  have second (n : Nat) (bound : n ≤ 60) (cs : List Char) :
      field? 0 60 (fixedChars 2 n ++ cs) = some (n, cs) :=
    field?_fixedChars (by omega) (by omega)
  -- The parts are read off the front one after the other.
  simp only [ofString?, text, String.toList_ofList, ofChars?, chars, List.append_assoc,
    List.cons_append, Option.bind_eq_bind]
  rw [year?_yearChars, Option.bind_some]
  dsimp only
  rw [mark?_cons hyphen, Option.bind_some, month, Option.bind_some]
  dsimp only
  rw [mark?_cons hyphen, Option.bind_some, monthDay, Option.bind_some]
  change Option.bind (some _) _ = some t
  rw [Option.bind_some, hour, Option.bind_some]
  dsimp only
  rw [mark?_cons colon, Option.bind_some, minute, Option.bind_some]
  dsimp only
  rw [mark?_cons colon, Option.bind_some]
  by_cases leap : 10 ^ 9 ≤ t.nano
  · -- The last second of a minute goes on as second sixty.
    have last : (t.second % 60 + if 10 ^ 9 ≤ t.nano then 1 else 0) = 60 := by
      rw [if_pos leap]
      omega
    have whole : 3600 * (t.second / 3600) + 60 * (t.second / 60 % 60) + 59 = t.second := by omega
    rw [last, if_pos leap, second 60 (by omega), Option.bind_some,
      nano?_fractionChars (show t.nano - 10 ^ 9 < 10 ^ 9 by omega), Option.bind_some, zone,
      Option.bind_some, if_pos ended, if_pos rfl, whole, Nat.sub_add_cancel leap]
    exact ofLocal?_universal date day
  · have inside : t.second % 60 + 0 ≠ 60 := by omega
    have whole : 3600 * (t.second / 3600) + 60 * (t.second / 60 % 60) + (t.second % 60 + 0) =
        t.second := by omega
    simp only [leap, if_false, second _ (show t.second % 60 + 0 ≤ 60 by omega), Option.bind_some,
      nano?_fractionChars (show t.nano < 10 ^ 9 by omega), zone, inside]
    rw [whole, if_pos ended]
    exact ofLocal?_universal date day

/-! ### The size of a text -/

/-- A character takes at most four bytes. -/
theorem utf8ByteSize_ofList_le (cs : List Char) :
    (String.ofList cs).utf8ByteSize ≤ 4 * cs.length := by
  induction cs with
  | nil => exact Nat.le_refl 0
  | cons c rest ih =>
    have one := c.utf8Size_le_four
    rw [String.ofList_cons, String.utf8ByteSize_append, String.utf8ByteSize_singleton,
      List.length_cons]
    omega

/-- Only moments on days that exist are made. -/
theorem isValid_of_ofLocal? {date : Date} {second nano : Nat} {offset : Int} {t : Timestamp}
    (made : ofLocal? date second nano offset = some t) : t.date.isValid = true := by
  unfold ofLocal? at made
  extract_lets shifted universal at made
  split at made
  · next valid =>
    obtain rfl := Option.some.inj made
    simp only [Bool.and_eq_true] at valid
    exact valid.2
  · contradiction

/-- Only days that exist are read. -/
theorem isValid_of_ofString? {s : String} {t : Timestamp} (read : ofString? s = some t) :
    t.date.isValid = true := by
  rw [ofString?, ofChars?] at read
  obtain ⟨⟨year, afterYear⟩, -, read⟩ := Option.bind_eq_some_iff.mp read
  obtain ⟨_, -, read⟩ := Option.bind_eq_some_iff.mp read
  obtain ⟨⟨month, afterMonth⟩, -, read⟩ := Option.bind_eq_some_iff.mp read
  obtain ⟨_, -, read⟩ := Option.bind_eq_some_iff.mp read
  obtain ⟨⟨day, afterDay⟩, -, read⟩ := Option.bind_eq_some_iff.mp read
  -- The joint between date and time may be one of three characters.
  dsimp only at read
  split at read
  case h_4 => contradiction
  all_goals
    obtain ⟨_, -, read⟩ := Option.bind_eq_some_iff.mp read
    obtain ⟨⟨hour, afterHour⟩, -, read⟩ := Option.bind_eq_some_iff.mp read
    obtain ⟨_, -, read⟩ := Option.bind_eq_some_iff.mp read
    obtain ⟨⟨minute, afterMinute⟩, -, read⟩ := Option.bind_eq_some_iff.mp read
    obtain ⟨_, -, read⟩ := Option.bind_eq_some_iff.mp read
    obtain ⟨⟨second, afterSecond⟩, -, read⟩ := Option.bind_eq_some_iff.mp read
    obtain ⟨⟨nano, afterNano⟩, -, read⟩ := Option.bind_eq_some_iff.mp read
    obtain ⟨⟨offset, rest⟩, -, read⟩ := Option.bind_eq_some_iff.mp read
    dsimp only at read
    split at read
    · split at read <;> exact isValid_of_ofLocal? read
    · contradiction

theorem length_yearChars_le {year : Int} (low : Date.minYear ≤ year) (high : year ≤ Date.maxYear) :
    (yearChars year).length ≤ 20 := by
  have small : year.natAbs < 2 ^ 18 := by
    simp only [Date.minYear, Date.maxYear] at low high
    omega
  have few : digitCount year.natAbs ≤ 18 := by
    rcases Nat.eq_zero_or_pos year.natAbs with zero | positive
    · rw [zero]
      decide
    · have bits := (Nat.log2_lt (by omega)).mpr small
      have most := digitCount_le year.natAbs
      omega
  have digits : (if year.natAbs < 10000 then fixedChars 4 year.natAbs
      else digitChars year.natAbs).length ≤ 18 := by
    split
    · simp [fixedChars]
    · simpa [digitChars] using few
  simp only [yearChars]
  split
  · rw [List.length_cons]
    omega
  split
  · omega
  · rw [List.length_cons]
    omega

theorem length_fractionChars_le (nano : Nat) : (fractionChars nano).length ≤ 10 := by
  unfold fractionChars
  split
  · simp
  split
  · simp [fixedChars]
  split <;> simp [fixedChars]

/-- The text of a moment on a day that exists is short. -/
theorem utf8ByteSize_text_le {t : Timestamp} (valid : t.date.isValid = true) :
    t.text.utf8ByteSize ≤ 200 := by
  simp only [Date.isValid, Bool.and_eq_true, decide_eq_true_eq] at valid
  have year := length_yearChars_le valid.1.1.1.1.1 valid.1.1.1.1.2
  have fraction (nano : Nat) := length_fractionChars_le nano
  have letters : t.chars.length ≤ 50 := by
    have most := fraction (if 10 ^ 9 ≤ t.nano then t.nano - 10 ^ 9 else t.nano)
    simp only [chars, fixedChars, List.length_append, List.length_cons, List.length_map,
      length_fixedDigits, List.length_nil]
    omega
  have bytes := utf8ByteSize_ofList_le t.chars
  rw [text]
  omega

end Timestamp

end StateMachines
