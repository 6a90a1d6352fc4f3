import StateMachines.Json.Basic
import StateMachines.Json.Quantity

/-! # Reading data from JSON trees

A record is written as an object of its fields or as the array of their values in order. In an
object the order is free and other members are ignored, but a field may stand there only once. In
an array, fields that have a default may be missing at the end. What is read may nest to a limited
depth: every reader is told for how many levels there is room, and opening a container takes one.
-/

namespace StateMachines

namespace Json

/-- How many arrays and objects may stand one in another. -/
def maxDepth : Nat := 127

/-! ## Leaves and lists -/

/-- The text of a string that spells one. -/
def asText? : Json → Option String
  | text t => t
  | _ => none

def asBool? : Json → Option Bool
  | bool b => some b
  | _ => none

def asQuantity? : Json → Option Quantity
  | number n => n.quantity?
  | _ => none

/-- A natural number below a bound. -/
def asNatBelow? (bound : Nat) (j : Json) : Option Nat :=
  match j.asQuantity? with
  | some (.integer n) => if 0 ≤ n ∧ n < bound then some n.toNat else none
  | _ => none

/-- The items of an array, each of which has one level less. -/
def list? {α : Type} (item? : Nat → Json → Option α) (room : Nat) (j : Json) : Option (List α) :=
  match room, j with
  | room + 1, array items => items.mapM (item? room)
  | _, _ => none

/-- Nothing for `null`, else what is read. -/
def nullable? {α : Type} (value? : Nat → Json → Option α) (room : Nat) : Json → Option (Option α)
  | null => some none
  | j => (value? room j).map some

/-! ## Fields -/

/-- The members have readable names, and each of the given names at most once. -/
def hasFieldsOnce (names : List String) (members : List (Option String × Json)) : Bool :=
  members.all (fun member => member.1.isSome) &&
    names.all fun name => members.countP (fun member => member.1 == some name) ≤ 1

/-- What stands under each field of a record with the given fields. -/
def fields? (names : List String) : Json → Option (String → Option Json)
  | object members =>
    if hasFieldsOnce names members then some fun name => members.lookup (some name) else none
  | array items =>
    if items.length ≤ names.length then some fun name => (names.zip items).lookup name else none
  | _ => none

/-- A record that is being read: its fields, and how many levels they may take. -/
structure Record where
  room : Nat
  field? : String → Option Json

/-- The record with the given fields. -/
def record? (names : List String) (room : Nat) (j : Json) : Option Record :=
  match room with
  | 0 => none
  | room + 1 => (j.fields? names).map fun field? => ⟨room, field?⟩

namespace Record

variable {α : Type}

/-- A field that has to be there. -/
def required? (r : Record) (name : String) (value? : Nat → Json → Option α) : Option α :=
  (r.field? name).bind (value? r.room)

/-- A field with a default. -/
def default? (r : Record) (name : String) (value? : Nat → Json → Option α) (default : α) :
    Option α :=
  match r.field? name with
  | none => some default
  | some j => value? r.room j

/-- A field that may be absent or `null`. -/
def optional? (r : Record) (name : String) (value? : Nat → Json → Option α) : Option (Option α) :=
  r.default? name (nullable? value?) none

end Record

/-! ## Variants -/

/-- One of several cases by name: a case without contents is its name alone or the object that
holds `null` under it, and any other case is the object that holds its contents. -/
structure Variant where
  tag : String
  payload : Option Json
  room : Nat

/-- The case that a tree names. -/
def variant? (room : Nat) : Json → Option Variant
  | text (some tag) => some ⟨tag, none, room⟩
  | object [(some tag, payload)] =>
    match room with
    | 0 => none
    | room + 1 => some ⟨tag, some payload, room⟩
  | _ => none

/-- The contents of a case that has none: `null`, or also an empty object where that is let pass. -/
def isUnit (lenient : Bool) : Json → Bool
  | null => true
  | object [] => lenient
  | _ => false

/-- The name of a case without contents. -/
def unitTag? (lenient : Bool) (room : Nat) (j : Json) : Option String :=
  match j.variant? room with
  | some ⟨tag, none, _⟩ => some tag
  | some ⟨tag, some payload, _⟩ => if payload.isUnit lenient then some tag else none
  | none => none

/-! ## Trees that are read as a whole -/

mutual

/-- Every part of the tree can be read: there is room for its levels, its strings spell texts and
its numbers are in range. -/
def isSound (room : Nat) : Json → Bool
  | null => true
  | bool _ => true
  | number n => n.quantity?.isSome
  | text t => t.isSome
  | array items => 0 < room && areSound (room - 1) items
  | object members => 0 < room && membersSound (room - 1) members

def areSound (room : Nat) : List Json → Bool
  | [] => true
  | item :: rest => item.isSound room && areSound room rest

def membersSound (room : Nat) : List (Option String × Json) → Bool
  | [] => true
  | (name, value) :: rest => name.isSome && value.isSound room && membersSound room rest

end

end Json

end StateMachines
