import StateMachines.Machine.Basic
import StateMachines.Proofs.Environment

/-! # What evaluation reads

Evaluating an expression is an inquiry: a computation that does not see the extent, but asks for
one variable after the other and goes on with the answers. Which names it asks for depends on what
it was answered before, and none is asked for in vain, since one that cannot be read ends it. That
an outcome and the names asked for are determined by the answers to these names is shown of
inquiries by one induction, and then holds of expressions, guards and transitions alike.
-/

namespace StateMachines

/-! ## Inquiries -/

/-- A computation that asks for variables. It is done with an outcome, or asks for a name and goes
on with its value; if the name cannot be read, it ends there. -/
inductive Inquiry (α : Type)
  | done (outcome : Except EvaluationError α)
  | ask (name : String) (next : Value → Inquiry α)

namespace Inquiry

variable {α β : Type} {read other : String → Except ContextError Value} {q : Inquiry α} {a : α}

/-- Go on with the result of an inquiry, unless it ends with an error. -/
def bind (q : Inquiry α) (next : α → Inquiry β) : Inquiry β :=
  match q with
  | done (.ok a) => next a
  | done (.error e) => done (.error e)
  | ask name more => ask name fun v => (more v).bind next

instance : Monad Inquiry where
  pure a := done (.ok a)
  bind := bind

/-- The outcome of an inquiry whose names read as given. -/
def answer (read : String → Except ContextError Value) : Inquiry α → Except EvaluationError α
  | done outcome => outcome
  | ask name next =>
    match read name with
    | .ok v => (next v).answer read
    | .error e => .error (.context e)

/-- The names that an inquiry asks for, in order, if they read as given. -/
def names (read : String → Except ContextError Value) : Inquiry α → List String
  | done _ => []
  | ask name next =>
    name :: match read name with
      | .ok v => (next v).names read
      | .error _ => []

theorem answer_bind (q : Inquiry α) (next : α → Inquiry β) :
    (q >>= next).answer read = q.answer read >>= fun a => (next a).answer read := by
  change (q.bind next).answer read = _
  induction q with
  | done outcome => cases outcome <;> rfl
  | ask name more ih =>
    simp only [bind, answer]
    cases read name with
    | ok v => exact ih v
    | error e => rfl

/-- Readers that agree on the names asked for get the same outcome, by asking for the same names. -/
theorem answer_congr (agree : ∀ name ∈ q.names read, other name = read name) :
    q.answer other = q.answer read ∧ q.names other = q.names read := by
  induction q with
  | done _ => exact ⟨rfl, rfl⟩
  | ask name next ih =>
    rw [names, List.forall_mem_cons] at agree
    obtain ⟨first, later⟩ := agree
    simp only [answer, names, first]
    cases answered : read name with
    | error e => exact ⟨rfl, rfl⟩
    | ok v =>
      rw [answered] at later
      obtain ⟨same, asked⟩ := ih v later
      exact ⟨same, congrArg (name :: ·) asked⟩

/-- An inquiry that ends with a result could read every name it asked for. -/
theorem exists_of_answer (answered : q.answer read = .ok a) :
    ∀ name ∈ q.names read, ∃ v, read name = .ok v := by
  induction q with
  | done _ => simp [names]
  | ask name next ih =>
    simp only [answer] at answered
    cases first : read name with
    | error e => simp [first] at answered
    | ok v =>
      rw [first] at answered
      simp only [names, first]
      exact List.forall_mem_cons.mpr ⟨⟨v, first⟩, ih v answered⟩

/-- An inquiry that goes on asks for the names of its first part, and then for those of the rest. -/
theorem names_bind (q : Inquiry α) (next : α → Inquiry β) :
    (q >>= next).names read = q.names read ++ match q.answer read with
      | .ok a => (next a).names read
      | .error _ => [] := by
  change (q.bind next).names read = _
  induction q with
  | done outcome => cases outcome <;> rfl
  | ask name more ih =>
    simp only [bind, names, answer]
    cases read name with
    | ok v => exact congrArg (name :: ·) (ih v)
    | error e => rfl

/-- If an inquiry ends with the error of a context, then this is what a name that it asked for reads
as. -/
def Blames (read : String → Except ContextError Value) (q : Inquiry α) : Prop :=
  ∀ e, q.answer read = .error (.context e) → ∃ name ∈ q.names read, read name = .error e

theorem Blames.done {outcome : Except EvaluationError α}
    (other : ∀ e, outcome ≠ .error (.context e)) : (Inquiry.done outcome).Blames read :=
  fun e failed => absurd failed (other e)

theorem Blames.bind {next : α → Inquiry β} (first : q.Blames read)
    (later : ∀ a, (next a).Blames read) : (q >>= next).Blames read := by
  intro e failed
  rw [answer_bind] at failed
  rw [names_bind]
  cases answered : q.answer read with
  | error reason =>
    rw [answered] at failed
    have blamed : reason = .context e := Except.error.inj failed
    obtain ⟨name, asked, unread⟩ := first e (answered.trans (congrArg Except.error blamed))
    exact ⟨name, List.mem_append_left _ asked, unread⟩
  | ok a =>
    rw [answered] at failed
    obtain ⟨name, asked, unread⟩ := later a e failed
    exact ⟨name, List.mem_append_right _ asked, unread⟩

end Inquiry

/-! ## Expressions, guards and transitions -/

namespace Evaluation

variable (op : BinaryOp) (l r : Value) (e : ContextError)

theorem expectBool_ne_context (operation : Operation) (v : Value) :
    expectBool operation v ≠ .error (.context e) := by
  cases v <;> simp [expectBool]

theorem expectNumber_bind_ne_context {α : Type} {next : Binary64 → Except EvaluationError α}
    (later : ∀ x, next x ≠ .error (.context e)) :
    (expectNumber op l >>= next) ≠ .error (.context e) := by
  unfold expectNumber
  cases l.asFloat with
  | none => simp [Bind.bind, Except.bind]
  | some x => exact later x

theorem strict_ne_context : strict op l r ≠ .error (.context e) := by
  have arithmetic : arithmetic op l r ≠ .error (.context e) := by
    unfold arithmetic
    split
    · dsimp only
      split <;> simp
    · split <;> simp
    · exact expectNumber_bind_ne_context op l e fun x =>
        expectNumber_bind_ne_context op r e fun y => nofun
  have order : order? op l r ≠ .error (.context e) := by
    unfold order?
    split
    · simp
    · simp
    · exact expectNumber_bind_ne_context op l e fun x =>
        expectNumber_bind_ne_context op r e fun y => nofun
  have comparison : comparison op l r ≠ .error (.context e) := by
    unfold comparison
    cases compared : order? op l r with
    | ok o => simp [Bind.bind, Except.bind]
    | error reason =>
      exact fun failed => order (compared.trans (congrArg Except.error (Except.error.inj failed)))
  cases op <;> first | exact arithmetic | exact comparison | simp [strict]

end Evaluation

open Evaluation in
/-- The inquiry that evaluates an expression: the left operand before the right one, which for `&&`
and `||` is left alone if the left one decides. -/
def Expr.inquiry : Expr → Inquiry Value
  | literal value => pure value
  | var name => .ask name pure
  | not operand => do
    let v ← operand.inquiry
    let b ← .done (expectBool .negation v)
    pure (.bool (!b))
  | binary op left right => do
    let l ← left.inquiry
    match decides? op with
    | none =>
      let r ← right.inquiry
      .done (strict op l r)
    | some decided =>
      let b ← .done (expectBool (.binary op) l)
      if b = decided then pure (.bool b)
      else
        let r ← right.inquiry
        let c ← .done (expectBool (.binary op) r)
        pure (.bool c)

/-- The inquiry that evaluates a guard. -/
def Guard.inquiry (g : Guard) : Inquiry Bool := do
  let v ← g.expression.inquiry
  .done (Evaluation.expectBool (.guard g.name) v)

/-- The inquiry whether a transition fires on an event. -/
def Transition.inquiry (t : Transition) (event : String) : Inquiry Bool :=
  if event ≠ t.event then pure false else t.guard.elim (pure true) Guard.inquiry

section Answers

variable (read : String → Except ContextError Value) (x : Extent)

theorem Expr.answer_inquiry (e : Expr) : e.inquiry.answer read = e.evaluateWith read := by
  induction e with
  | literal value => rfl
  | var name =>
    simp only [inquiry, Inquiry.answer, evaluateWith]
    cases read name <;> rfl
  | not operand ih =>
    simp only [inquiry, evaluateWith, Inquiry.answer_bind, ih]
    rfl
  | binary op left right ihLeft ihRight =>
    simp only [inquiry, evaluateWith, Inquiry.answer_bind, ihLeft]
    congr 1
    funext l
    cases Evaluation.decides? op with
    | none => simp only [Inquiry.answer_bind, ihRight]; rfl
    | some decided =>
      simp only [Inquiry.answer_bind]
      congr 1
      funext b
      split
      · rfl
      · simp only [Inquiry.answer_bind, ihRight]; rfl

@[simp] theorem Expr.names_inquiry_var (name : String) :
    (var name).inquiry.names read = [name] := by
  simp only [inquiry, Inquiry.names]
  cases read name <;> rfl

/-- Operators fail for reasons of their own, so only a variable can bring in the error of a
context. -/
theorem Expr.blames_inquiry (e : Expr) : e.inquiry.Blames read := by
  have checked (operation : Operation) (v : Value) :
      (Inquiry.done (Evaluation.expectBool operation v)).Blames read :=
    .done fun e => Evaluation.expectBool_ne_context e operation v
  have computed (v : Value) : (pure v : Inquiry Value).Blames read := .done nofun
  induction e with
  | literal value => exact computed value
  | var name =>
    intro e failed
    simp only [inquiry, Inquiry.answer] at failed
    refine ⟨name, by simp, ?_⟩
    cases found : read name with
    | ok v => simp [found, pure, Inquiry.answer] at failed
    | error reason =>
      rw [found] at failed
      rw [EvaluationError.context.inj (Except.error.inj failed)]
  | not operand ih => exact ih.bind fun v => (checked .negation v).bind fun b => computed (.bool !b)
  | binary op left right ihLeft ihRight =>
    refine ihLeft.bind fun l => ?_
    split
    · exact ihRight.bind fun r => .done (Evaluation.strict_ne_context op l r)
    · refine (checked (.binary op) l).bind fun b => ?_
      split
      · exact computed (.bool b)
      · exact ihRight.bind fun r => (checked (.binary op) r).bind fun c => computed (.bool c)

theorem Guard.answer_inquiry (g : Guard) : g.inquiry.answer x.get = g.evaluate x := by
  simp only [inquiry, evaluate, Inquiry.answer_bind, Expr.answer_inquiry]
  rfl

theorem Transition.answer_inquiry (t : Transition) (event : String) :
    (t.inquiry event).answer x.get = t.canFire event x := by
  unfold inquiry canFire
  split
  · rfl
  · cases t.guard with
    | none => rfl
    | some g => exact g.answer_inquiry x

end Answers

/-! ## What does not matter -/

/-- What may happen to an extent. -/
inductive Extent.Alteration
  /-- A context is put around all others. -/
  | enclose (c : Context)
  /-- The extent is asked for a change. -/
  | request (r : Request)
  /-- A variable is changed in the context at a place. -/
  | change (place : Nat) (ch : Change)
deriving DecidableEq

/-- The variable that is created, assigned or deleted. -/
def Extent.Alteration.name? : Alteration → Option String
  | enclose _ => none
  | request r => some r.name
  | change _ ch => some ch.name

namespace Extent

variable {x y : Extent} {name : String} {v : Value}

/-- The extent after something has happened to it. -/
def alter (x : Extent) : Alteration → Extent
  | .enclose c => x.enclose c
  | .request r => (x.perform r).2
  | .change place ch => (x.changeAt place ch).2

/-- The extent after several things have happened to it, one after the other. -/
def alterAll (x : Extent) (alterations : List Alteration) : Extent := alterations.foldl alter x

/-- A variable that is read is not hidden by a context outside. -/
theorem getIn_append_of_ok {scopes outer : List Context} (found : getIn name scopes = .ok v) :
    getIn name (scopes ++ outer) = .ok v := by
  induction scopes with
  | nil => cases found
  | cons c rest ih =>
    rw [getIn] at found
    rw [List.cons_append, getIn]
    split at found
    · exact found
    · exact ih found
    · cases found

/-- A change of one variable, in whichever context, leaves the others as they are read. -/
theorem getIn_changeIn {ch : Change} (apart : name ≠ ch.name) (place : Nat) (scopes : List Context)
    (d : Disk) : getIn name (changeIn ch place scopes d).2.1 = getIn name scopes := by
  induction scopes generalizing place with
  | nil => cases place <;> rfl
  | cons c rest ih =>
    cases place with
    | zero =>
      have same : (c.change ch d).2.1.get name = c.get name := by
        rcases changed : c.change ch d with ⟨answer, next, after⟩
        rcases Context.change_cases changed with ⟨_, -, rfl, -⟩ | ⟨-, m, made, rfl⟩
        · rfl
        · exact Context.get_withContents (by rw [Memory.get?_of_change made, if_neg apart])
      simp only [changeIn, getIn, same]
    | succ place => simp only [changeIn, getIn, ih]

/-- A request leaves all variables but its own as they are read. -/
theorem get_perform_of_ne {r : Request} (apart : name ≠ r.name) :
    (x.perform r).2.get name = x.get name := by
  rcases ran : x.perform r with ⟨answer, y⟩
  rcases perform_cases ran with ⟨-, -, same⟩ | ⟨-, inner, c, outer, ch, named, rewrites⟩
  · exact congrArg (getIn name) same
  · exact rewrites.get_other (named ▸ apart)

/-- Whatever happens, a variable that is read stays as it is, if it is not the one that is
changed. -/
theorem get_alter {alteration : Alteration} (apart : alteration.name? ≠ some name)
    (found : x.get name = .ok v) : (x.alter alteration).get name = .ok v := by
  cases alteration with
  | enclose c => exact getIn_append_of_ok found
  | request r => rw [alter, get_perform_of_ne fun same => apart (congrArg some same.symm), found]
  | change place ch =>
    rw [← found]
    exact getIn_changeIn (fun same => apart (congrArg some same.symm)) place x.scopes x.disk

theorem get_alterAll {alterations : List Alteration}
    (apart : ∀ alteration ∈ alterations, alteration.name? ≠ some name)
    (found : x.get name = .ok v) : (x.alterAll alterations).get name = .ok v := by
  induction alterations generalizing x with
  | nil => exact found
  | cons first rest ih =>
    obtain ⟨here, later⟩ := List.forall_mem_cons.mp apart
    exact ih later (get_alter here found)

end Extent

/-- What is computed in extents is what an inquiry finds there. So it is the same, after the same
names, in every extent where these read the same; and a result outlasts contexts around the extent
and changes of variables that were not asked for. -/
structure Inquiry.Determines {α : Type} (q : Inquiry α)
    (compute : Extent → Except EvaluationError α) : Prop where
  answers (x : Extent) : q.answer x.get = compute x
  congr (x y : Extent) : (∀ name ∈ q.names x.get, y.get name = x.get name) →
    compute y = compute x ∧ q.names y.get = q.names x.get
  lasts (x : Extent) (a : α) : compute x = .ok a → ∀ alterations : List Extent.Alteration,
    (∀ alteration ∈ alterations, ∀ name ∈ q.names x.get, alteration.name? ≠ some name) →
    compute (x.alterAll alterations) = .ok a ∧
      q.names (x.alterAll alterations).get = q.names x.get

theorem Inquiry.determines {α : Type} {q : Inquiry α}
    {compute : Extent → Except EvaluationError α}
    (answers : ∀ x : Extent, q.answer x.get = compute x) : q.Determines compute := by
  have congr (x y : Extent) (agree : ∀ name ∈ q.names x.get, y.get name = x.get name) :
      compute y = compute x ∧ q.names y.get = q.names x.get := by
    rw [← answers, ← answers]
    exact q.answer_congr agree
  refine ⟨answers, congr, fun x a done alterations apart => ?_⟩
  rw [← done]
  refine congr x _ fun name asked => ?_
  obtain ⟨v, found⟩ := q.exists_of_answer ((answers x).trans done) name asked
  rw [found]
  exact Extent.get_alterAll (fun alteration member => apart alteration member name asked) found

/-- Evaluating an expression or a guard, and asking whether a transition fires, depend on nothing
but the names that are asked for on the way. -/
theorem inquiries_determine_evaluation :
    (∀ e : Expr, e.inquiry.Determines fun x => e.evaluate x) ∧
      (∀ g : Guard, g.inquiry.Determines g.evaluate) ∧
      ∀ (t : Transition) (event : String), (t.inquiry event).Determines (t.canFire event) :=
  ⟨fun e => Inquiry.determines fun x => e.answer_inquiry x.get,
    fun g => Inquiry.determines fun x => g.answer_inquiry x,
    fun t event => Inquiry.determines fun x => t.answer_inquiry x event⟩

/-- A left operand that decides keeps the right one from being asked for. -/
example : (Expr.binary .and (.var "on") (.var "missing")).inquiry.names
    (Extent.ofMemories [⟨.machineLocal, .ofList [("on", .bool false)]⟩]).get = ["on"] := by
  decide

end StateMachines
