import StateMachines.Declaration.Basic
import StateMachines.Expr.Json
import StateMachines.Json.Reader
import StateMachines.Json.Writer

/-! # Declarations as JSON

Declarations are records. An action has its name and its effect side by side in one object, so it is
read as a whole before its parts are looked at; a use of an action or of a guard is a text or that
object, and is read as a whole too. In the parts of an action an empty object passes for a missing
content.
-/

namespace StateMachines

namespace Binding

def toJson (b : Binding) : Json := .ofMembers [("name", .ofText b.name), ("value", b.value.toJson)]

def ofJson? (lenient : Bool) (room : Nat) (j : Json) : Option Binding := do
  let r ← j.record? ["name", "value"] room
  let name ← r.required? "name" fun _ => Json.asText?
  let value ← r.required? "value" (Expr.ofJson? lenient)
  some ⟨name, value⟩

def listToJson (bindings : List Binding) : Json := .array (bindings.map toJson)

end Binding

/-- A text or nothing. -/
def optionalTextToJson : Option String → Json
  | none => .null
  | some s => .ofText s

namespace Effect

/-- The members that say what an action does. -/
def members : Effect → List (String × Json)
  | assign name value =>
    [("type", .ofText "assign"), ("variable", .ofText name), ("value", value.toJson)]
  | create name value =>
    [("type", .ofText "create"), ("variable", .ofText name), ("value", value.toJson)]
  | delete name => [("type", .ofText "delete"), ("variable", .ofText name)]
  | raise event data =>
    [("type", .ofText "raise"), ("event", .ofText event), ("data", Binding.listToJson data)]

def toJson (e : Effect) : Json := .ofMembers e.members

/-- The names of the effects, in the order of their numbers. -/
def tags : List String := ["assign", "create", "delete", "raise"]

/-- The name of an effect, written out or as a number. -/
def tag? (members : List (Option String × Json)) : Option String := do
  let j ← members.lookup (some "type")
  match j with
  | .text t => t
  | _ => do
    let index ← j.asNatBelow? tags.length
    tags[index]?

/-- The text under a name. -/
def text? (members : List (Option String × Json)) (name : String) : Option String :=
  (members.lookup (some name)).bind Json.asText?

/-- The expression under a name. -/
def expr? (members : List (Option String × Json)) (room : Nat) (name : String) : Option Expr :=
  (members.lookup (some name)).bind (Expr.ofJson? true room)

/-- The data of an event, which may be absent. -/
def data? (members : List (Option String × Json)) (room : Nat) : Option (List Binding) :=
  match members.lookup (some "data") with
  | none => some []
  | some j => Json.list? (Binding.ofJson? true) room j

/-- The names that belong to an effect. -/
def fieldsOf (tag : String) : List String :=
  if tag = "raise" then ["event", "data"]
  else if tag = "delete" then ["variable"]
  else ["variable", "value"]

/-- The effect that the members of an object say. -/
def ofMembers? (room : Nat) (members : List (Option String × Json)) : Option Effect := do
  let tag ← tag? members
  if Json.hasFieldsOnce ("type" :: fieldsOf tag) members then
    if tag = "assign" then
      some (assign (← text? members "variable") (← expr? members room "value"))
    else if tag = "create" then
      some (create (← text? members "variable") (← expr? members room "value"))
    else if tag = "delete" then some (delete (← text? members "variable"))
    else if tag = "raise" then some (raise (← text? members "event") (← data? members room))
    else none
  else none

end Effect

namespace Action

def toJson (a : Action) : Json :=
  .ofMembers (("name", optionalTextToJson a.name) :: a.effect.members)

/-- The action of an object, all of whose members are read. -/
def ofJson? (room : Nat) (j : Json) : Option Action :=
  match room, j with
  | room + 1, .object members =>
    if Json.hasFieldsOnce ["name"] members && Json.membersSound room members then do
      let name ← match members.lookup (some "name") with
        | none => some none
        | some j => Json.nullable? (fun _ => Json.asText?) room j
      let effect ← Effect.ofMembers? room members
      some ⟨name, effect⟩
    else none
  | _, _ => none

end Action

namespace Guard

def toJson (g : Guard) : Json :=
  .ofMembers [("name", optionalTextToJson g.name), ("expression", g.expression.toJson)]

def ofJson? (room : Nat) (j : Json) : Option Guard := do
  let r ← j.record? ["name", "expression"] room
  let name ← r.optional? "name" fun _ => Json.asText?
  let expression ← r.required? "expression" (Expr.ofJson? false)
  some ⟨name, expression⟩

end Guard

namespace ActionUse

def toJson : ActionUse → Json
  | named name => .ofText name
  | inline action => action.toJson

def ofJson? (room : Nat) : Json → Option ActionUse
  | .text t => t.map named
  | j => (Action.ofJson? room j).map inline

end ActionUse

namespace GuardUse

def toJson : GuardUse → Json
  | named name => .ofText name
  | inline guard => guard.toJson

def ofJson? (room : Nat) : Json → Option GuardUse
  | .text t => t.map named
  | j => if j.isSound room then (Guard.ofJson? room j).map inline else none

end GuardUse

/-- The uses of actions as an array. -/
def ActionUse.listToJson (actions : List ActionUse) : Json := .array (actions.map toJson)

namespace TransitionDecl

def toJson (t : TransitionDecl) : Json :=
  .ofMembers [
    ("event", .ofText t.event),
    ("target", .ofText t.target),
    ("guard", t.guard.elim .null GuardUse.toJson),
    ("actions", ActionUse.listToJson t.actions)]

def ofJson? (room : Nat) (j : Json) : Option TransitionDecl := do
  let r ← j.record? ["event", "target", "guard", "actions"] room
  let event ← r.required? "event" fun _ => Json.asText?
  let target ← r.required? "target" fun _ => Json.asText?
  let guard ← r.optional? "guard" GuardUse.ofJson?
  let actions ← r.default? "actions" (Json.list? ActionUse.ofJson?) []
  some ⟨event, target, guard, actions⟩

end TransitionDecl

namespace StateDecl

def toJson (s : StateDecl) : Json :=
  .ofMembers [
    ("name", .ofText s.name),
    ("virtual", .bool s.isVirtual),
    ("abstract", .bool s.isAbstract),
    ("entry", ActionUse.listToJson s.entry),
    ("exit", ActionUse.listToJson s.exit),
    ("on", .array (s.transitions.map TransitionDecl.toJson))]

def ofJson? (room : Nat) (j : Json) : Option StateDecl := do
  let r ← j.record? ["name", "virtual", "abstract", "entry", "exit", "on"] room
  let name ← r.required? "name" fun _ => Json.asText?
  let isVirtual ← r.default? "virtual" (fun _ => Json.asBool?) false
  let isAbstract ← r.default? "abstract" (fun _ => Json.asBool?) false
  let entry ← r.default? "entry" (Json.list? ActionUse.ofJson?) []
  let exit ← r.default? "exit" (Json.list? ActionUse.ofJson?) []
  let transitions ← r.default? "on" (Json.list? TransitionDecl.ofJson?) []
  some ⟨name, isVirtual, isAbstract, entry, exit, transitions⟩

end StateDecl

namespace MachineDecl

def toJson (m : MachineDecl) : Json :=
  .ofMembers [
    ("name", .ofText m.name),
    ("states", .array (m.states.map StateDecl.toJson)),
    ("localContext", m.localContext.elim .null Binding.listToJson),
    ("persistentContext", m.persistentContext.elim .null Binding.listToJson),
    ("guards", .array (m.guards.map Guard.toJson)),
    ("actions", .array (m.actions.map Action.toJson)),
    ("extends", optionalTextToJson m.parent),
    ("abstract", .bool m.isAbstract)]

def ofJson? (room : Nat) (j : Json) : Option MachineDecl := do
  let r ← j.record? ["name", "states", "localContext", "persistentContext", "guards", "actions",
    "extends", "abstract"] room
  let name ← r.required? "name" fun _ => Json.asText?
  let states ← r.required? "states" (Json.list? StateDecl.ofJson?)
  let localContext ← r.optional? "localContext" (Json.list? (Binding.ofJson? false))
  let persistentContext ← r.optional? "persistentContext" (Json.list? (Binding.ofJson? false))
  let guards ← r.default? "guards" (Json.list? Guard.ofJson?) []
  let actions ← r.default? "actions" (Json.list? Action.ofJson?) []
  let parent ← r.optional? "extends" fun _ => Json.asText?
  let isAbstract ← r.default? "abstract" (fun _ => Json.asBool?) false
  some ⟨name, states, localContext, persistentContext, guards, actions, parent, isAbstract⟩

end MachineDecl

namespace SystemDecl

def toJson (s : SystemDecl) : Json :=
  .ofMembers [
    ("name", .ofText s.name),
    ("stateMachines", .array (s.machines.map MachineDecl.toJson))]

def ofJson? (room : Nat) (j : Json) : Option SystemDecl := do
  let r ← j.record? ["name", "stateMachines"] room
  let name ← r.required? "name" fun _ => Json.asText?
  let machines ← r.default? "stateMachines" (Json.list? MachineDecl.ofJson?) []
  some ⟨name, machines⟩

/-- The characters of the JSON text of a declaration. -/
def toChars (s : SystemDecl) : List Char := s.toJson.compactChars

/-- The declaration that the characters of a JSON text hold. -/
def ofChars? (cs : List Char) : Option SystemDecl :=
  (Json.ofChars? cs).bind (ofJson? Json.maxDepth)

/-- The JSON text of a declaration. -/
def toText (s : SystemDecl) : String := .ofList s.toChars

/-- The declaration that a JSON text holds. -/
def ofText? (text : String) : Option SystemDecl := ofChars? text.toList

end SystemDecl

namespace Options

def toJson (o : Options) : Json :=
  .ofMembers [
    ("max_inheritance_depth", .number (.ofInt o.maxInheritanceDepth)),
    ("abstract_states_overridable", .bool o.abstractStatesOverridable)]

def ofJson? (room : Nat) (j : Json) : Option Options := do
  let r ← j.record? ["max_inheritance_depth", "abstract_states_overridable"] room
  let depth ← r.default? "max_inheritance_depth" (fun _ => Json.asNatBelow? (2 ^ 64))
    standard.maxInheritanceDepth
  let overridable ← r.default? "abstract_states_overridable" (fun _ => Json.asBool?)
    standard.abstractStatesOverridable
  some ⟨depth, overridable⟩

/-- The options that a JSON text holds. -/
def ofText? (text : String) : Option Options :=
  (Json.ofString? text).bind (ofJson? Json.maxDepth)

end Options

end StateMachines
