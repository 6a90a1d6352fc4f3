import StateMachines.Number.Digits
import StateMachines.Text.Blank

/-! # Timestamps

A moment in universal time, to the nanosecond. It is written as a date and a time joined by `T`,
with as many decimals of the second as it takes (none, three, six or nine), and `Z`. More forms
are read: blanks in front of numbers and separators, a `t` or a blank as joint, `UTC`, and offsets
in hours and minutes, which are taken off. A leap second is a fifty-ninth second of more than 10⁹
nanoseconds.
-/

namespace StateMachines

/-- A day of the Gregorian calendar, extended to all years. -/
structure Date where
  year : Int
  month : Nat
  day : Nat
deriving DecidableEq, Repr, Inhabited

namespace Date

/-- Every fourth year, but of the full centuries only every fourth one. -/
def isLeapYear (year : Int) : Bool := year % 4 == 0 && (year % 100 != 0 || year % 400 == 0)

/-- How many days a month has. -/
def daysInMonth (year : Int) (month : Nat) : Nat :=
  if month = 2 then if isLeapYear year then 29 else 28
  else if month = 4 ∨ month = 6 ∨ month = 9 ∨ month = 11 then 30
  else 31

/-- The first year that can be held. -/
def minYear : Int := -262143

/-- The last year that can be held. -/
def maxYear : Int := 262142

/-- The date exists, and its year can be held. -/
def isValid (d : Date) : Bool :=
  minYear ≤ d.year && d.year ≤ maxYear && 1 ≤ d.month && d.month ≤ 12 && 1 ≤ d.day &&
    d.day ≤ daysInMonth d.year d.month

/-- The day after. -/
def next (d : Date) : Date :=
  if d.day < daysInMonth d.year d.month then ⟨d.year, d.month, d.day + 1⟩
  else if d.month < 12 then ⟨d.year, d.month + 1, 1⟩
  else ⟨d.year + 1, 1, 1⟩

/-- The day before. -/
def previous (d : Date) : Date :=
  if 1 < d.day then ⟨d.year, d.month, d.day - 1⟩
  else if 1 < d.month then ⟨d.year, d.month - 1, daysInMonth d.year (d.month - 1)⟩
  else ⟨d.year - 1, 12, 31⟩

end Date

/-- A moment: a day, a second of it, and nanoseconds, which pass 10⁹ in a leap second. -/
structure Timestamp where
  date : Date
  second : Nat
  nano : Nat
deriving DecidableEq, Repr, Inhabited

namespace Timestamp

/-! ## Writing -/

/-- Four digits, or a sign and as many as it takes. -/
def yearChars (year : Int) : List Char :=
  let size := year.natAbs
  let digits := if size < 10000 then fixedChars 4 size else digitChars size
  if year < 0 then '-' :: digits else if year < 10000 then digits else '+' :: digits

/-- The decimals of a second. -/
def fractionChars (nano : Nat) : List Char :=
  if nano = 0 then []
  else if nano % 1000000 = 0 then '.' :: fixedChars 3 (nano / 1000000)
  else if nano % 1000 = 0 then '.' :: fixedChars 6 (nano / 1000)
  else '.' :: fixedChars 9 nano

/-- The characters of a moment. A leap second is written as second sixty. -/
def chars (t : Timestamp) : List Char :=
  let leap := 10 ^ 9 ≤ t.nano
  let second := t.second % 60 + if leap then 1 else 0
  let nano := if leap then t.nano - 10 ^ 9 else t.nano
  yearChars t.date.year ++ '-' :: fixedChars 2 t.date.month ++ '-' :: fixedChars 2 t.date.day
    ++ 'T' :: fixedChars 2 (t.second / 3600) ++ ':' :: fixedChars 2 (t.second / 60 % 60)
    ++ ':' :: fixedChars 2 second ++ fractionChars nano ++ ['Z']

/-- The text of a moment. -/
def text (t : Timestamp) : String := .ofList t.chars

/-! ## Reading

Each reader takes a part of the text off the front and answers the rest. -/

/-- At most `limit` digits. -/
def takeDigits : (limit : Nat) → List Char → List Digit × List Char
  | 0, cs => ([], cs)
  | _ + 1, [] => ([], [])
  | limit + 1, c :: rest =>
    match Digit.ofChar? c with
    | some d => let (ds, after) := takeDigits limit rest; (d :: ds, after)
    | none => ([], c :: rest)

/-- A number of one to `limit` digits. -/
def number? (limit : Nat) (cs : List Char) : Option (Nat × List Char) :=
  match takeDigits limit cs with
  | ([], _) => none
  | (ds, rest) => some (ofDigits ds, rest)

/-- A number of at most two digits between bounds, after blanks. -/
def field? (low high : Nat) (cs : List Char) : Option (Nat × List Char) :=
  match number? 2 (Text.trimStart cs) with
  | some (n, rest) => if low ≤ n ∧ n ≤ high then some (n, rest) else none
  | none => none

/-- A year: as many digits as there are after a sign, else at most four. -/
def year? (cs : List Char) : Option (Int × List Char) :=
  match Text.trimStart cs with
  | '-' :: rest => (number? rest.length rest).map fun (n, after) => (-(n : Int), after)
  | '+' :: rest => (number? rest.length rest).map fun (n, after) => ((n : Int), after)
  | cs => (number? 4 cs).map fun (n, after) => ((n : Int), after)

/-- A character, after blanks. -/
def mark? (c : Char) (cs : List Char) : Option (List Char) :=
  match Text.trimStart cs with
  | d :: rest => if d = c then some rest else none
  | [] => none

/-- The nanoseconds: none, or a point and decimals, of which nine count. -/
def nano? : List Char → Option (Nat × List Char)
  | '.' :: rest =>
    match takeDigits 9 rest with
    | ([], _) => none
    | (ds, after) =>
      some (ofDigits ds * 10 ^ (9 - ds.length), after.dropWhile fun c => (Digit.ofChar? c).isSome)
  | cs => some (0, cs)

/-- The word that stands for no offset. -/
def isUniversal (cs : List Char) : Bool := cs.map Char.toLower == ['u', 't', 'c']

/-- A sign, two digits of hours, colons and blanks or nothing, two digits of minutes: the offset in
seconds. -/
def signedOffset? (negative : Bool) : List Char → Option (Int × List Char)
  | h :: i :: rest => do
    let h ← Digit.ofChar? h
    let i ← Digit.ofChar? i
    match rest.dropWhile fun c => c = ':' || Text.isBlank c with
    | m :: n :: rest =>
      let m ← Digit.ofChar? m
      let n ← Digit.ofChar? n
      if m.val < 6 then
        let minutes : Nat := 60 * (10 * h.val + i.val) + 10 * m.val + n.val
        let seconds : Int := 60 * minutes
        some (if negative then -seconds else seconds, rest)
      else none
    | _ => none
  | _ => none

/-- The offset from universal time in seconds. -/
def offset? (cs : List Char) : Option (Int × List Char) :=
  if isUniversal (cs.take 3) then some (0, cs.drop 3)
  else
    match cs with
    | 'Z' :: rest | 'z' :: rest => some (0, rest)
    | '+' :: rest => signedOffset? false rest
    | '-' :: rest => signedOffset? true rest
    | '\u2212' :: rest => signedOffset? true rest
    | _ => none

/-- The moment at which a clock that is ahead by `offset` seconds shows a time of a day. -/
def ofLocal? (date : Date) (second nano : Nat) (offset : Int) : Option Timestamp :=
  let shifted := (second : Int) - offset
  let universal :=
    if shifted < 0 then Timestamp.mk date.previous (shifted + 86400).toNat nano
    else if shifted < 86400 then ⟨date, shifted.toNat, nano⟩
    else ⟨date.next, (shifted - 86400).toNat, nano⟩
  if date.isValid && offset.natAbs < 86400 && universal.date.isValid then some universal else none

/-- Read a timestamp. -/
def ofChars? (cs : List Char) : Option Timestamp := do
  let (year, cs) ← year? cs
  let (month, cs) ← field? 1 12 (← mark? '-' cs)
  let (day, cs) ← field? 1 31 (← mark? '-' cs)
  let cs ← match cs with
    | 'T' :: rest | 't' :: rest | ' ' :: rest => some rest
    | _ => none
  let (hour, cs) ← field? 0 23 cs
  let (minute, cs) ← field? 0 59 (← mark? ':' cs)
  let (second, cs) ← field? 0 60 (← mark? ':' cs)
  let (nano, cs) ← nano? cs
  let (offset, cs) ← offset? (Text.trimStart cs)
  if (Text.trimStart cs).isEmpty then
    if second = 60 then
      ofLocal? ⟨year, month, day⟩ (3600 * hour + 60 * minute + 59) (nano + 10 ^ 9) offset
    else ofLocal? ⟨year, month, day⟩ (3600 * hour + 60 * minute + second) nano offset
  else none

/-- Read a timestamp. -/
def ofString? (s : String) : Option Timestamp := ofChars? s.toList

end Timestamp

end StateMachines
