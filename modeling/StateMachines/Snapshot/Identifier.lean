import StateMachines.Number.Hexadecimal

/-! # Identifiers of snapshots

An identifier is a number of 128 bits. It is written as 32 hexadecimal digits in five groups
joined by hyphens, and read from that form, from the bare digits, from the form in braces, and
from the form after `urn:uuid:`, with letters of either case throughout.
-/

namespace StateMachines

/-- A number of 128 bits. -/
structure Identifier where
  value : BitVec 128
deriving DecidableEq, Repr, Inhabited

namespace Identifier

/-- The sizes of the groups of digits. -/
def groups : List Nat := [8, 4, 4, 4, 12]

/-- Cut a list into groups of the given sizes and put hyphens between them. -/
def hyphenate : List Nat → List Char → List Char
  | [], _ => []
  | [size], cs => cs.take size
  | size :: sizes, cs => cs.take size ++ '-' :: hyphenate sizes (cs.drop size)

/-- The written form. -/
def text (id : Identifier) : String :=
  .ofList (hyphenate groups (Hexadecimal.fixed 32 id.value.toNat))

/-- Take the hyphens out of groups of the given sizes. -/
def joinGroups? : List Nat → List Char → Option (List Char)
  | [], [] => some []
  | [], _ :: _ => none
  | [size], cs => if cs.length = size then some cs else none
  | size :: sizes, cs =>
    match cs.drop size with
    | '-' :: rest => (joinGroups? sizes rest).map (cs.take size ++ ·)
    | _ => none

/-- The hexadecimal digits of a written identifier. -/
def hexDigits? (cs : List Char) : Option (List Char) :=
  if cs.length = 32 then some cs
  else if cs.length = 36 then joinGroups? groups cs
  else if cs.length = 38 then
    if cs.head? = some '\x7b' ∧ cs.getLast? = some '\x7d' then
      joinGroups? groups (cs.drop 1).dropLast
    else none
  else if cs.length = 45 then
    if (cs.take 9).map Char.toLower = "urn:uuid:".toList then joinGroups? groups (cs.drop 9)
    else none
  else none

/-- Read an identifier. -/
def ofString? (s : String) : Option Identifier := do
  let digits ← hexDigits? s.toList
  let n ← Hexadecimal.read? digits
  some ⟨.ofNat 128 n⟩

end Identifier

end StateMachines
