import StateMachines.Declaration.Json
import StateMachines.Proofs.CompactText
import StateMachines.Proofs.Conveying

/-! # Declarations read back

Whatever a declaration is made of conveys itself: read from any abridgement of its tree, it is the
same again. The one thing in it that may not survive in a text is a float.
-/

namespace StateMachines

open Json (Conveys isDefault_eq_false)

/-! ## Floats in declarations -/

namespace Expr

/-- The floats anywhere in an expression. -/
def floats : Expr → List Binary64
  | literal value => value.floats
  | var _ => []
  | not operand => operand.floats
  | binary _ left right => left.floats ++ right.floats

end Expr

def Effect.floats : Effect → List Binary64
  | assign _ value => value.floats
  | create _ value => value.floats
  | delete _ => []
  | raise _ data => data.flatMap fun field => field.value.floats

def ActionUse.floats : ActionUse → List Binary64
  | named _ => []
  | inline action => action.effect.floats

def GuardUse.floats : GuardUse → List Binary64
  | named _ => []
  | inline guard => guard.expression.floats

def TransitionDecl.floats (t : TransitionDecl) : List Binary64 :=
  t.guard.toList.flatMap GuardUse.floats ++ t.actions.flatMap ActionUse.floats

def StateDecl.floats (s : StateDecl) : List Binary64 :=
  s.entry.flatMap ActionUse.floats ++ s.exit.flatMap ActionUse.floats ++
    s.transitions.flatMap TransitionDecl.floats

/-- The floats in the initial values of a context. -/
def Binding.contextFloats (context : Option (List Binding)) : List Binary64 :=
  (context.getD []).flatMap fun binding => binding.value.floats

def MachineDecl.floats (m : MachineDecl) : List Binary64 :=
  m.states.flatMap StateDecl.floats ++ Binding.contextFloats m.localContext ++
    Binding.contextFloats m.persistentContext ++
    m.guards.flatMap (fun guard => guard.expression.floats) ++
    m.actions.flatMap fun action => action.effect.floats

/-- The floats anywhere in a system. -/
def SystemDecl.floats (s : SystemDecl) : List Binary64 := s.machines.flatMap MachineDecl.floats

/-- A list is read if each item is whose floats are read back. -/
theorem conveys_list {α : Type} {toJson : α → Json} {read? : Nat → Json → Option α}
    {floats : α → List Binary64} {as : List α} (kept : ∀ x ∈ as.flatMap floats, x.readsBack = true)
    (each : ∀ a, (∀ x ∈ floats a, x.readsBack = true) → Conveys read? (toJson a) a) :
    Conveys (Json.list? read?) (.array (as.map toJson)) as :=
  .list fun a held => each a fun x float => kept x (List.mem_flatMap.mpr ⟨a, held, float⟩)

/-! ## Values -/

namespace Value

/-- The tree of a float that is read back is read as that float. -/
theorem conveys_floatToJson {x : Binary64} (kept : x.readsBack = true) :
    Conveys (fun _ j => j.asQuantity?.map Quantity.toBinary64) (floatToJson x) x := by
  have worth := (floatOfJson?_eq_some_iff x).mpr kept
  have finite : x.isFinite = true := by
    simp only [Binary64.readsBack, Bool.and_eq_true] at kept
    exact kept.1
  rw [floatToJson, if_pos finite] at worth ⊢
  refine ⟨fun _ _ => ?_, fun _ abridged => ?_⟩
  · obtain ⟨q, read, -⟩ := Option.map_eq_some_iff.mp worth
    exact Option.isSome_iff_exists.mpr ⟨q, read⟩
  · cases abridged
    exact worth

/-- The tree of an integer is read as that integer. -/
theorem conveys_integer (n : Int64) :
    Conveys (fun _ => integerOfJson?) (.number (.ofInt n.toInt)) n := by
  have high := n.toInt_lt
  have worth : (Numeral.ofInt n.toInt).quantity? = some (.integer n.toInt) :=
    Numeral.quantity?_ofInt n.le_toInt (by omega)
  refine ⟨fun _ _ => by simp [Json.isSound, worth], fun _ abridged => ?_⟩
  cases abridged
  exact integerOfJson?_ofInt n

theorem listToJson_eq_map (items : List Value) : listToJson items = items.map toJson := by
  induction items with
  | nil => rfl
  | cons item rest ih => rw [listToJson, ih, List.map_cons]

mutual

/-- A value whose floats are read back is read from its tree. -/
theorem conveys_toJson (lenient : Bool) : (v : Value) → v.readsBack = true →
    Conveys (ofJson? lenient) v.toJson v
  | null, _ => by
    refine ⟨fun _ _ => rfl, fun {room k} _ abridged => ?_⟩
    cases abridged
    cases room <;> rfl
  | bool b, _ => .tagged (isDefault_eq_false (by decide)) (.map bool (.bool b)) fun _ _ => rfl
  | integer n, _ =>
    .tagged (isDefault_eq_false (by decide)) (.map integer (conveys_integer n)) fun _ _ => rfl
  | float x, kept =>
    .tagged (isDefault_eq_false (by decide)) (.map float (conveys_floatToJson kept)) fun _ _ => by
      simp [Json.tagged, ofJson?, leafOfJson?, Option.map_map, Function.comp_def]
  | string s, _ => .tagged (isDefault_eq_false (by decide)) (.map string (.ofText s)) fun _ _ => rfl
  | list items, kept => by
    have each := conveys_items lenient items kept
    rw [toJson, listToJson_eq_map]
    refine .tagged (isDefault_eq_false (by decide)) (.map list (.list each)) fun room k => ?_
    cases room <;> cases k <;> rfl

theorem conveys_items (lenient : Bool) : (items : List Value) → listReadsBack items = true →
    ∀ item ∈ items, Conveys (ofJson? lenient) item.toJson item
  | [], _ => by simp
  | item :: rest, kept => by
    simp only [listReadsBack, Bool.and_eq_true] at kept
    exact List.forall_mem_cons.mpr
      ⟨conveys_toJson lenient item kept.1, conveys_items lenient rest kept.2⟩

end

end Value

/-! ## Expressions -/

theorem BinaryOp.conveys_toJson (lenient : Bool) (op : BinaryOp) :
    Conveys (ofJson? lenient) op.toJson op := by
  refine ⟨fun _ _ => rfl, fun _ abridged => ?_⟩
  cases abridged
  simp [ofJson?, Json.unitTag?, Json.variant?]

namespace Expr

/-- The operator and the operands of a binary expression. -/
private def binary? (lenient : Bool) (r : Json.Record) : Option Expr := do
  let op ← r.required? "op" (BinaryOp.ofJson? lenient)
  let left ← r.required? "left" (ofJson? lenient)
  let right ← r.required? "right" (ofJson? lenient)
  some (binary op left right)

private theorem ofJson?_tagged_binary (lenient : Bool) (room : Nat) (k : Json) :
    ofJson? lenient (room + 1) (.tagged "binary" k) =
      (k.record? ["op", "left", "right"] room).bind (binary? lenient) := by
  cases room with
  | zero => rfl
  | succ room =>
    cases fields : k.fields? ["op", "left", "right"] <;>
      simp [Json.tagged, ofJson?, Json.record?, fields, binary?, Json.Record.required?]

/-- An expression whose floats are read back is read from its tree. -/
theorem conveys_toJson (lenient : Bool) {e : Expr} (kept : ∀ x ∈ e.floats, x.readsBack = true) :
    Conveys (ofJson? lenient) e.toJson e := by
  induction e with
  | literal value =>
    have value := value.conveys_toJson lenient (value.readsBack_iff.mpr kept)
    exact .tagged (isDefault_eq_false (by decide)) (.map literal value) fun room _ => by
      cases room <;> simp [Json.tagged, ofJson?]
  | var name =>
    exact .tagged (isDefault_eq_false (by decide)) (.map var (.ofText name)) fun room _ => by
      cases room <;> simp [Json.tagged, ofJson?]
  | not operand ih =>
    exact .tagged (isDefault_eq_false (by decide)) (.map not (ih kept)) fun room _ => by
      cases room <;> simp [Json.tagged, ofJson?]
  | binary op left right ihLeft ihRight =>
    simp only [floats, List.mem_append, or_imp, forall_and] at kept
    have op := op.conveys_toJson lenient
    have left := ihLeft kept.1
    have right := ihRight kept.2
    refine .tagged (isDefault_eq_false (by decide)) (.record (by simp) ?_ fun r carries => ?_)
      (ofJson?_tagged_binary lenient)
    · simpa using ⟨op.whole, left.whole, right.whole⟩
    · have op := carries.required? "op" (by simp) (isDefault_eq_false (by decide) _) op
      have left := carries.required? "left" (by simp) (isDefault_eq_false (by decide) _) left
      have right := carries.required? "right" (by simp) (isDefault_eq_false (by decide) _) right
      simp [binary?, op, left, right]

end Expr

/-! ## Actions and guards -/

namespace Binding

/-- A binding whose floats are read back is read from its tree. -/
theorem conveys_toJson (lenient : Bool) {b : Binding}
    (kept : ∀ x ∈ b.value.floats, x.readsBack = true) :
    Conveys (ofJson? lenient) b.toJson b := by
  have value := Expr.conveys_toJson lenient kept
  refine .record (by simp) ?_ fun r carries => ?_
  · simpa using ⟨(Conveys.ofText b.name).whole, value.whole⟩
  · have name := carries.text? "name" b.name (by simp)
    have value := carries.required? "value" (by simp) (isDefault_eq_false (by decide) _) value
    simp [name, value]

/-- A list of bindings whose floats are read back is read from its tree. -/
theorem conveys_listToJson (lenient : Bool) {bindings : List Binding}
    (kept : ∀ x ∈ bindings.flatMap fun b => b.value.floats, x.readsBack = true) :
    Conveys (Json.list? (ofJson? lenient)) (listToJson bindings) bindings :=
  conveys_list kept fun _ => conveys_toJson lenient

end Binding

theorem optionalTextToJson_eq_elim (o : Option String) :
    optionalTextToJson o = o.elim .null .ofText := by
  cases o <;> rfl

theorem conveys_optionalText (o : Option String) :
    Conveys (Json.nullable? fun _ => Json.asText?) (o.elim .null .ofText) o :=
  .nullable o fun s _ => ⟨.ofText s, by simp [Json.ofText]⟩

namespace Effect

variable {room : Nat} {others : List (Option String × Json)} {members : List (String × Json)}

/-- The case that an object with the members of an effect names. -/
theorem tag?_of_carries {tag : String}
    (carries : Json.Record.Carries ⟨room, fun name => others.lookup (some name)⟩ members)
    (member : ("type", .ofText tag) ∈ members) : tag? others = some tag := by
  have stands := carries.stands _ member
  cases found : others.lookup (some "type") with
  | none => simp [found, Json.StandsFor, Json.ofText, Json.isDefault] at stands
  | some k =>
    have same : (Json.ofText tag).Abridges k := by
      simpa [found, Json.StandsFor] using stands
    cases same
    simp [tag?, found]

/-- An effect whose floats are read back is read from what stands for its members, among others. -/
theorem ofMembers?_of_carries {effect : Effect} {name : Json}
    (kept : ∀ x ∈ effect.floats, x.readsBack = true)
    (once : ∀ names, Json.hasFieldsOnce names others = true)
    (carries : Json.Record.Carries ⟨room, fun name => others.lookup (some name)⟩
      (("name", name) :: effect.members)) : ofMembers? room others = some effect := by
  have text (field s : String) (member : (field, .ofText s) ∈ ("name", name) :: effect.members) :
      text? others field = some s := carries.text? field s member
  have value {e : Expr} (kept : ∀ x ∈ e.floats, x.readsBack = true)
      (member : ("value", e.toJson) ∈ ("name", name) :: effect.members) :
      expr? others room "value" = some e :=
    carries.required? "value" member (isDefault_eq_false (by decide) _) (e.conveys_toJson true kept)
  cases effect with
  | assign target e =>
    have tag : tag? others = some "assign" := tag?_of_carries carries (by simp [members])
    have target := text "variable" target (by simp [members])
    have value := value kept (by simp [members])
    simp [ofMembers?, tag, once, target, value]
  | create target e =>
    have tag : tag? others = some "create" := tag?_of_carries carries (by simp [members])
    have target := text "variable" target (by simp [members])
    have value := value kept (by simp [members])
    simp [ofMembers?, tag, once, target, value]
  | delete target =>
    have tag : tag? others = some "delete" := tag?_of_carries carries (by simp [members])
    have target := text "variable" target (by simp [members])
    simp [ofMembers?, tag, once, target]
  | raise event data =>
    have tag : tag? others = some "raise" := tag?_of_carries carries (by simp [members])
    have event := text "event" event (by simp [members])
    have data : data? others room = some data :=
      carries.list? "data" (by simp [members, Binding.listToJson])
        (Binding.conveys_listToJson true kept)
    simp [ofMembers?, tag, once, event, data]

/-- The names of an effect's members are told apart, and none is that of the action. -/
theorem nodup_members (effect : Effect) (name : Json) :
    ((("name", name) :: effect.members).map Prod.fst).Nodup := by
  cases effect <;> simp [members]

theorem isWhole_members {effect : Effect} (kept : ∀ x ∈ effect.floats, x.readsBack = true) :
    ∀ member ∈ effect.members, member.2.IsWhole := by
  have text (s : String) : (Json.ofText s).IsWhole := fun _ _ => rfl
  cases effect with
  | assign name value | create name value =>
    have value := (Expr.conveys_toJson true kept).whole
    simpa [members] using ⟨text _, text _, value⟩
  | delete name => simpa [members] using ⟨text _, text _⟩
  | raise event data =>
    have data := (Binding.conveys_listToJson true kept).whole
    simpa [members] using ⟨text _, text _, data⟩

end Effect

namespace Action

/-- An action whose floats are read back is read from its tree, with its name and its effect. -/
theorem conveys_toJson {a : Action} (kept : ∀ x ∈ a.effect.floats, x.readsBack = true) :
    Conveys ofJson? a.toJson a := by
  obtain ⟨name, effect⟩ := a
  have optional := conveys_optionalText name
  rw [toJson, optionalTextToJson_eq_elim]
  have whole : ∀ member ∈ ("name", name.elim .null Json.ofText) :: effect.members,
      member.2.IsWhole := List.forall_mem_cons.mpr ⟨optional.whole, Effect.isWhole_members kept⟩
  have whole := Json.isWhole_ofMembers whole
  refine ⟨whole, fun {room k} nests abridged => ?_⟩
  have sound := abridged.isSound _ (whole room nests)
  cases room with
  | zero => simp [Json.ofMembers, Json.nesting] at nests
  | succ room =>
    obtain ⟨others, rfl, once, carries⟩ := abridged.members (effect.nodup_members _) nests
    have inside : Json.membersSound room others = true := by simpa [Json.isSound] using sound
    have named := carries.optional? "name" List.mem_cons_self (fun _ _ => rfl) optional
    have read := Effect.ofMembers?_of_carries kept once carries
    cases found : others.lookup (some "name") with
    | none =>
      obtain rfl : none = name := by
        simpa [Json.Record.optional?, Json.Record.default?, found] using named
      simp [ofJson?, once, inside, found, read]
    | some j =>
      have named : Json.nullable? (fun _ => Json.asText?) room j = some name := by
        simpa [Json.Record.optional?, Json.Record.default?, found] using named
      simp [ofJson?, once, inside, found, named, read]

end Action

namespace Guard

/-- A guard whose floats are read back is read from its tree. -/
theorem conveys_toJson {g : Guard} (kept : ∀ x ∈ g.expression.floats, x.readsBack = true) :
    Conveys ofJson? g.toJson g := by
  have name := conveys_optionalText g.name
  have expression := Expr.conveys_toJson false kept
  rw [toJson, optionalTextToJson_eq_elim]
  refine .record (by simp) ?_ fun r carries => ?_
  · simpa using ⟨name.whole, expression.whole⟩
  · have name := carries.optional? "name" (by simp) (fun _ _ => rfl) name
    have expression :=
      carries.required? "expression" (by simp) (isDefault_eq_false (by decide) _) expression
    simp [name, expression]

end Guard

/-! ## Uses

A text is a name and an object is a declaration in place, in every abridgement. -/

namespace ActionUse

theorem conveys_toJson {use : ActionUse} (kept : ∀ x ∈ use.floats, x.readsBack = true) :
    Conveys ofJson? use.toJson use := by
  cases use with
  | named name =>
    refine ⟨fun _ _ => rfl, fun _ abridged => ?_⟩
    cases abridged
    rfl
  | inline action =>
    have conveys := Action.conveys_toJson kept
    refine ⟨conveys.whole, fun {room k} nests abridged => ?_⟩
    have read := conveys.reads nests abridged
    cases abridged
    simp [ofJson?, read]

theorem conveys_listToJson {uses : List ActionUse}
    (kept : ∀ x ∈ uses.flatMap floats, x.readsBack = true) :
    Conveys (Json.list? ofJson?) (listToJson uses) uses :=
  conveys_list kept fun _ => conveys_toJson

end ActionUse

namespace GuardUse

theorem conveys_toJson {use : GuardUse} (kept : ∀ x ∈ use.floats, x.readsBack = true) :
    Conveys ofJson? use.toJson use := by
  cases use with
  | named name =>
    refine ⟨fun _ _ => rfl, fun _ abridged => ?_⟩
    cases abridged
    rfl
  | inline guard =>
    have conveys := Guard.conveys_toJson kept
    refine ⟨conveys.whole, fun {room k} nests abridged => ?_⟩
    have sound := abridged.isSound _ (conveys.whole room nests)
    have read := conveys.reads nests abridged
    cases abridged
    simp [ofJson?, sound, read]

/-- A use of a guard is never left out. -/
theorem isDefault_toJson (use : GuardUse) (name : String) :
    Json.isDefault name use.toJson = false := by
  cases use <;> simp [toJson, Json.ofText, Guard.toJson, Json.ofMembers, Json.isDefault]

theorem toJson_ne_null (use : GuardUse) : use.toJson ≠ .null := by
  cases use <;> simp [toJson, Json.ofText, Guard.toJson, Json.ofMembers]

end GuardUse

/-! ## States, machines and systems -/

namespace TransitionDecl

theorem conveys_toJson {t : TransitionDecl} (kept : ∀ x ∈ t.floats, x.readsBack = true) :
    Conveys ofJson? t.toJson t := by
  simp only [floats, List.mem_append, or_imp, forall_and] at kept
  have guard : Conveys (Json.nullable? GuardUse.ofJson?) (t.guard.elim .null GuardUse.toJson)
      t.guard :=
    .nullable t.guard fun use held => ⟨GuardUse.conveys_toJson fun x float =>
      kept.1 x (List.mem_flatMap.mpr ⟨use, by simpa using held, float⟩), use.toJson_ne_null⟩
  have actions := ActionUse.conveys_listToJson kept.2
  refine .record (by simp) ?_ fun r carries => ?_
  · simpa using ⟨(Conveys.ofText t.event).whole, (Conveys.ofText t.target).whole, guard.whole,
      actions.whole⟩
  · have event := carries.text? "event" t.event (by simp)
    have target := carries.text? "target" t.target (by simp)
    have guard := carries.optional? "guard" (by simp) (fun use _ => use.isDefault_toJson _) guard
    have actions := carries.list? "actions" (by simp [ActionUse.listToJson]) actions
    simp [event, target, guard, actions]

end TransitionDecl

namespace StateDecl

theorem conveys_toJson {s : StateDecl} (kept : ∀ x ∈ s.floats, x.readsBack = true) :
    Conveys ofJson? s.toJson s := by
  simp only [floats, List.mem_append, or_imp, forall_and] at kept
  obtain ⟨⟨keptEntry, keptExit⟩, keptTransitions⟩ := kept
  have entry := ActionUse.conveys_listToJson keptEntry
  have exit := ActionUse.conveys_listToJson keptExit
  have transitions := conveys_list keptTransitions fun _ => TransitionDecl.conveys_toJson
  refine .record (by simp) ?_ fun r carries => ?_
  · simpa using ⟨(Conveys.ofText s.name).whole, (Conveys.bool s.isVirtual).whole,
      (Conveys.bool s.isAbstract).whole, entry.whole, exit.whole, transitions.whole⟩
  · have name := carries.text? "name" s.name (by simp)
    have isVirtual := carries.flag? "virtual" s.isVirtual (by simp)
    have isAbstract := carries.flag? "abstract" s.isAbstract (by simp)
    have entry := carries.list? "entry" (by simp [ActionUse.listToJson]) entry
    have exit := carries.list? "exit" (by simp [ActionUse.listToJson]) exit
    have transitions := carries.list? "on" (by simp) transitions
    simp [name, isVirtual, isAbstract, entry, exit, transitions]

end StateDecl

/-- The context of a machine is read back, and an empty one is not taken for a missing one. -/
theorem Binding.conveys_context {context : Option (List Binding)}
    (kept : ∀ x ∈ contextFloats context, x.readsBack = true) :
    Conveys (Json.nullable? (Json.list? (ofJson? false))) (context.elim .null listToJson) context :=
  .nullable context fun bindings held => by
    obtain rfl : context = some bindings := held
    exact ⟨conveys_listToJson false kept, by simp [listToJson]⟩

namespace MachineDecl

theorem conveys_toJson {m : MachineDecl} (kept : ∀ x ∈ m.floats, x.readsBack = true) :
    Conveys ofJson? m.toJson m := by
  simp only [floats, List.mem_append, or_imp, forall_and] at kept
  obtain ⟨⟨⟨⟨keptStates, keptLocal⟩, keptPersistent⟩, keptGuards⟩, keptActions⟩ := kept
  have states := conveys_list keptStates fun _ => StateDecl.conveys_toJson
  have localContext := Binding.conveys_context keptLocal
  have persistentContext := Binding.conveys_context keptPersistent
  have guards := conveys_list keptGuards fun _ => Guard.conveys_toJson
  have actions := conveys_list keptActions fun _ => Action.conveys_toJson
  have parent := conveys_optionalText m.parent
  rw [toJson, optionalTextToJson_eq_elim]
  refine .record (by simp) ?_ fun r carries => ?_
  · simpa using ⟨(Conveys.ofText m.name).whole, states.whole, localContext.whole,
      persistentContext.whole, guards.whole, actions.whole, parent.whole,
      (Conveys.bool m.isAbstract).whole⟩
  · have name := carries.text? "name" m.name (by simp)
    have states := carries.required? "states" (by simp) (isDefault_eq_false (by decide) _) states
    have localContext := carries.optional? "localContext" (by simp)
      (fun bindings _ => by cases bindings <;> rfl) localContext
    have persistentContext := carries.optional? "persistentContext" (by simp)
      (fun bindings _ => by cases bindings <;> rfl) persistentContext
    have guards := carries.list? "guards" (by simp) guards
    have actions := carries.list? "actions" (by simp) actions
    have parent := carries.optional? "extends" (by simp) (fun _ _ => rfl) parent
    have isAbstract := carries.flag? "abstract" m.isAbstract (by simp)
    simp [name, states, localContext, persistentContext, guards, actions, parent, isAbstract]

end MachineDecl

namespace SystemDecl

theorem conveys_toJson {d : SystemDecl} (kept : ∀ x ∈ d.floats, x.readsBack = true) :
    Conveys ofJson? d.toJson d := by
  have machines := conveys_list kept fun _ => MachineDecl.conveys_toJson
  refine .record (by simp) ?_ fun r carries => ?_
  · simpa using ⟨(Conveys.ofText d.name).whole, machines.whole⟩
  · have name := carries.text? "name" d.name (by simp)
    have machines := carries.list? "stateMachines" (by simp) machines
    simp [name, machines]

/-- If each float in a declaration is finite and read back from its digits and its tree nests no
deeper than is read, the declaration is read from every text that holds its tree or any abridgement
of it. -/
theorem ofText?_of_abridges {d : SystemDecl}
    (floats : ∀ x ∈ d.floats,
      x.isFinite = true ∧ Json.binary64OfText? (Value.digitText x) = some x)
    (nests : d.toJson.nesting ≤ 127) :
    Json.ofString? d.toText = some d.toJson ∧
      ∀ k, d.toJson.Abridges k → ofText? k.compact = some d ∧
        ∀ text, Json.ofString? text = some k → ofText? text = some d := by
  have conveys := conveys_toJson fun x float => (Value.readsBack_float_iff x).mpr (floats x float)
  have sound := conveys.whole 127 nests
  have written (k : Json) (abridged : d.toJson.Abridges k) : Json.ofString? k.compact = some k := by
    have spelled := k.isSpelled_of_isSound (abridged.isSound _ sound)
    rw [Json.compact, Json.ofString?_ofList, Json.ofChars?_compactChars spelled]
  have read (k : Json) (abridged : d.toJson.Abridges k) (text : String)
      (holds : Json.ofString? text = some k) : ofText? text = some d := by
    have found := conveys.reads nests abridged
    rw [ofText?, ofChars?, ← Json.ofString?, holds]
    exact found
  exact ⟨written _ (.refl _), fun k abridged =>
    ⟨read k abridged _ (written k abridged), read k abridged⟩⟩

/-- A machine with a named action that creates a variable with the value of a tenth. Its one state
uses that action by name, and raises an event in place. -/
def lamp : SystemDecl :=
  ⟨"house", [⟨"lamp",
    [⟨"lit", false, false, [.named "warm", .inline (.raise "shine")], [], []⟩], some [], none, [],
    [⟨some "warm", .create "heat" (.literal (.float ⟨0x3FB999999999999A⟩))⟩], none, false⟩]⟩

/-- All that can be left out is left out but one flag, and the fields stand the other way round. -/
def lampAbridged : Json :=
  .ofMembers [
    ("stateMachines", .array [.ofMembers [
      ("actions", .array [.ofMembers [
        ("value", Expr.toJson (.literal (.float ⟨0x3FB999999999999A⟩))),
        ("variable", .ofText "heat"),
        ("type", .ofText "create"),
        ("name", .ofText "warm")]]),
      ("localContext", .array []),
      ("states", .array [.ofMembers [
        ("entry", .array [.ofText "warm",
          .ofMembers [("event", .ofText "shine"), ("type", .ofText "raise")]]),
        ("abstract", .bool false),
        ("name", .ofText "lit")]]),
      ("name", .ofText "lamp")]]),
    ("name", .ofText "house")]

theorem ofText?_of_abridges_lamp :
    (∀ x ∈ lamp.floats,
      x.isFinite = true ∧ Json.binary64OfText? (Value.digitText x) = some x) ∧
    lamp.toJson.nesting ≤ 127 ∧ lamp.toJson.Abridges lampAbridged ∧
    ofText? lampAbridged.compact = some lamp := by
  have floats : ∀ x ∈ lamp.floats,
      x.isFinite = true ∧ Json.binary64OfText? (Value.digitText x) = some x := by decide +kernel
  have nests : lamp.toJson.nesting ≤ 127 := by decide +kernel
  have abridged : lamp.toJson.Abridges lampAbridged := by
    refine .object (.keep (.refl _) (.keep (.array (.cons ?machine .nil)) .nil)) (.swap ..)
    refine .object (.keep (.refl _) (.keep (.array (.cons ?state .nil)) (.keep (.refl _)
      (.drop (by rfl) (.drop (by rfl) (.keep (.array (.cons ?action .nil))
        (.drop (by rfl) (.drop (by rfl) .nil)))))))) (List.reverse_perm _).symm
    case action =>
      exact .object (.refl _) (List.reverse_perm _).symm
    case state =>
      refine .object (.keep (.refl _) (.drop (by rfl) (.keep (.refl _)
        (.keep (.array (.cons (.refl _) (.cons ?raise .nil)))
          (.drop (by rfl) (.drop (by rfl) .nil)))))) (List.reverse_perm _).symm
      exact .object (.drop (by rfl) (.keep (.refl _) (.keep (.refl _) (.drop (by rfl) .nil))))
        (List.reverse_perm _).symm
  exact ⟨floats, nests, abridged, ((ofText?_of_abridges floats nests).2 _ abridged).1⟩

end SystemDecl

end StateMachines
