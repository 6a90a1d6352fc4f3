import StateMachines.Json.Reader
import StateMachines.Json.Writer
import StateMachines.Snapshot.Basic
import StateMachines.Value.Json

/-! # Snapshots as JSON

A snapshot is written as an indented record. What is read back is checked.
-/

namespace StateMachines

namespace Scope

def toJson (scope : Scope) : Json := .ofText scope.name

def ofJson? (room : Nat) (j : Json) : Option Scope := (j.unitTag? false room).bind ofName?

end Scope

namespace Variable

def toJson (v : Variable) : Json :=
  .ofMembers [("name", .ofText v.name), ("value", v.value.toJson), ("scope", v.scope.toJson)]

def ofJson? (room : Nat) (j : Json) : Option Variable := do
  let r ← j.record? ["name", "value", "scope"] room
  let name ← r.required? "name" fun _ => Json.asText?
  let value ← r.required? "value" (Value.ofJson? false)
  let scope ← r.required? "scope" Scope.ofJson?
  some ⟨name, value, scope⟩

end Variable

namespace Snapshot

def toJson (s : Snapshot) : Json :=
  .ofMembers [
    ("version", .number (.ofInt s.version)),
    ("id", .ofText s.stamp.id.text),
    ("taken_at", .ofText s.stamp.takenAt.text),
    ("scope", s.scope.toJson),
    ("variables", .array (s.vars.map Variable.toJson))]

/-- The snapshot of a tree, unchecked. -/
def ofJson? (room : Nat) (j : Json) : Option Snapshot := do
  let r ← j.record? ["version", "id", "taken_at", "scope", "variables"] room
  let version ← r.required? "version" fun _ => Json.asNatBelow? (2 ^ 32)
  let id ← r.required? "id" fun _ j => j.asText?.bind Identifier.ofString?
  let takenAt ← r.required? "taken_at" fun _ j => j.asText?.bind Timestamp.ofString?
  let scope ← r.required? "scope" Scope.ofJson?
  let vars ← r.required? "variables" (Json.list? Variable.ofJson?)
  some ⟨version, ⟨id, takenAt⟩, scope, vars⟩

/-- The characters of the JSON text of a snapshot. -/
def toChars (s : Snapshot) : List Char := s.toJson.indentedChars 0

/-- The valid snapshot that the characters of a JSON text hold. -/
def ofChars (cs : List Char) : Except SnapshotError Snapshot :=
  accept .json ((Json.ofChars? cs).bind (ofJson? Json.maxDepth))

/-- The JSON text of a snapshot. -/
def toText (s : Snapshot) : String := .ofList s.toChars

/-- The valid snapshot that a JSON text holds. -/
def ofText (text : String) : Except SnapshotError Snapshot := ofChars text.toList

theorem ofText_toText (s : Snapshot) : ofText s.toText = ofChars s.toChars := by
  simp [ofText, toText]

end Snapshot

end StateMachines
