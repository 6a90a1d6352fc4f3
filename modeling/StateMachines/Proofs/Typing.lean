import StateMachines.Behavior.Guard

/-! # Types of expressions

Expressions are typed over the types of the variables that they read. One that has a type is
evaluated to a value of that type, or overflows in an operator that it applies to two integers; it
never meets an operand of the wrong type or a name that is not there. The rules of the operators
come first, and what each does to values of the right types; the rest is an induction on the typing.
-/

namespace StateMachines

/-- The type is one of numbers. -/
def Value.Kind.isNumeric : Kind → Bool
  | .integer | .float => true
  | _ => false

namespace BinaryOp

/-- The operators that add, subtract and multiply. -/
def arithmetic : List BinaryOp := [add, sub, mul]

/-- The operators that read an order. -/
def inequalities : List BinaryOp := [lt, le, gt, ge]

/-- What an operator gives for operands of two types. -/
inductive Gives : BinaryOp → (left right result : Value.Kind) → Prop
  | logical {op : BinaryOp} (logical : op ∈ [and, or]) : Gives op .bool .bool .bool
  | integers {op : BinaryOp} (computes : op ∈ arithmetic) : Gives op .integer .integer .integer
  | floats {op : BinaryOp} {left right : Value.Kind} (computes : op ∈ arithmetic)
      (numbers : left.isNumeric = true ∧ right.isNumeric = true)
      (float : left = .float ∨ right = .float) : Gives op left right .float
  | joined : Gives add .string .string .string
  | ordered {op : BinaryOp} {left right : Value.Kind} (orders : op ∈ inequalities)
      (numbers : left.isNumeric = true ∧ right.isNumeric = true) : Gives op left right .bool
  | orderedTexts {op : BinaryOp} (orders : op ∈ inequalities) : Gives op .string .string .bool
  | equated {op : BinaryOp} (equates : op ∈ [eq, ne]) (left right : Value.Kind) :
      Gives op left right .bool

end BinaryOp

namespace Expr

/-- The type of an expression whose variables have the given types; a variable without a type has
no place in it. -/
inductive HasType (kindOf? : String → Option Value.Kind) : Expr → Value.Kind → Prop
  | literal (value : Value) : HasType kindOf? (.literal value) value.kind
  | var {name : String} {kind : Value.Kind} (visible : kindOf? name = some kind) :
      HasType kindOf? (.var name) kind
  | not {operand : Expr} (typed : HasType kindOf? operand .bool) :
      HasType kindOf? (.not operand) .bool
  | binary {op : BinaryOp} {left right : Expr} {l r kind : Value.Kind}
      (typedLeft : HasType kindOf? left l) (typedRight : HasType kindOf? right r)
      (gives : op.Gives l r kind) : HasType kindOf? (.binary op left right) kind

/-- The parts of an expression, itself included. -/
def parts : Expr → List Expr
  | literal value => [literal value]
  | var name => [var name]
  | not operand => not operand :: operand.parts
  | binary op left right => binary op left right :: (left.parts ++ right.parts)

theorem self_mem_parts (e : Expr) : e ∈ e.parts := by
  cases e <;> exact List.mem_cons_self ..

/-- Somewhere in the expression an operator adds, subtracts or multiplies two integers. -/
def ComputesIntegers (kindOf? : String → Option Value.Kind) (op : BinaryOp) (e : Expr) : Prop :=
  op ∈ BinaryOp.arithmetic ∧ ∃ left right, binary op left right ∈ e.parts ∧
    HasType kindOf? left .integer ∧ HasType kindOf? right .integer

end Expr

/-! ## Operators -/

namespace Value

variable {v : Value}

theorem exists_bool (kind : v.kind = .bool) : ∃ b, v = .bool b := by
  cases v with
  | bool b => exact ⟨b, rfl⟩
  | _ => cases kind

theorem exists_integer (kind : v.kind = .integer) : ∃ n, v = .integer n := by
  cases v with
  | integer n => exact ⟨n, rfl⟩
  | _ => cases kind

theorem exists_string (kind : v.kind = .string) : ∃ s, v = .string s := by
  cases v with
  | string s => exact ⟨s, rfl⟩
  | _ => cases kind

/-- A value of a type of numbers has a number. -/
theorem exists_asFloat (numeric : v.kind.isNumeric = true) : ∃ x, v.asFloat = some x := by
  have same : v.kind.isNumeric = v.isNumeric := by cases v <;> rfl
  rwa [← Option.isSome_iff_exists, asFloat_isSome, ← same]

end Value

namespace Evaluation

variable {op : BinaryOp} {v w : Value}

theorem expectNumber_of_asFloat {x : Binary64} (float : v.asFloat = some x) :
    expectNumber op v = .ok x := by
  rw [expectNumber, float]

/-- Two integers are computed to an integer, or the result does not fit. -/
theorem arithmetic_integers (op : BinaryOp) (m n : Int64) :
    (∃ k, arithmetic op (.integer m) (.integer n) = .ok (.integer k)) ∨
      arithmetic op (.integer m) (.integer n) = .error (.overflow op) := by
  simp only [arithmetic]
  split
  · exact .inl ⟨_, rfl⟩
  · exact .inr rfl

/-- Two numbers of which one is a float are computed to a float. -/
theorem arithmetic_floats (op : BinaryOp)
    (numbers : v.kind.isNumeric = true ∧ w.kind.isNumeric = true)
    (float : v.kind = .float ∨ w.kind = .float) : ∃ x, arithmetic op v w = .ok (.float x) := by
  obtain ⟨x, left⟩ := Value.exists_asFloat numbers.1
  obtain ⟨y, right⟩ := Value.exists_asFloat numbers.2
  refine ⟨rounded op x y, ?_⟩
  unfold arithmetic
  split
  · rcases float with float | float <;> cases float
  · cases numbers.1
  · rw [expectNumber_of_asFloat left, expectNumber_of_asFloat right]
    rfl

/-- Two numbers are ordered, if only in that they have no order. -/
theorem order?_numbers (op : BinaryOp)
    (numbers : v.kind.isNumeric = true ∧ w.kind.isNumeric = true) :
    ∃ order, order? op v w = .ok order := by
  obtain ⟨x, left⟩ := Value.exists_asFloat numbers.1
  obtain ⟨y, right⟩ := Value.exists_asFloat numbers.2
  unfold order?
  split
  · exact ⟨_, rfl⟩
  · exact ⟨_, rfl⟩
  · rw [expectNumber_of_asFloat left, expectNumber_of_asFloat right]
    exact ⟨_, rfl⟩

/-- What has an order can be compared. -/
theorem comparison_of_order? {order : Option Ordering} (ordered : order? op v w = .ok order) :
    ∃ b, comparison op v w = .ok (.bool b) :=
  ⟨_, by rw [comparison, ordered]; rfl⟩

theorem strict_of_computes (computes : op ∈ BinaryOp.arithmetic) :
    strict op v w = arithmetic op v w := by
  simp only [BinaryOp.arithmetic, List.mem_cons, List.not_mem_nil, or_false] at computes
  rcases computes with rfl | rfl | rfl <;> rfl

theorem strict_of_orders (orders : op ∈ BinaryOp.inequalities) :
    strict op v w = comparison op v w := by
  simp only [BinaryOp.inequalities, List.mem_cons, List.not_mem_nil, or_false] at orders
  rcases orders with rfl | rfl | rfl | rfl <;> rfl

/-- An operator that reads both operands gives a value of the type that the rules say, or it has
computed two integers and the result does not fit. -/
theorem strict_of_gives {kind : Value.Kind} (reads : decides? op = none)
    (gives : op.Gives v.kind w.kind kind) :
    (∃ u, strict op v w = .ok u ∧ u.kind = kind) ∨
      strict op v w = .error (.overflow op) ∧ op ∈ BinaryOp.arithmetic ∧
        v.kind = .integer ∧ w.kind = .integer := by
  generalize l : v.kind = left at gives
  generalize r : w.kind = right at gives
  cases gives with
  | logical logical =>
    simp only [List.mem_cons, List.not_mem_nil, or_false] at logical
    rcases logical with rfl | rfl <;> cases reads
  | integers computes =>
    obtain ⟨m, rfl⟩ := Value.exists_integer l
    obtain ⟨n, rfl⟩ := Value.exists_integer r
    rw [strict_of_computes computes]
    rcases arithmetic_integers op m n with ⟨k, computed⟩ | overflow
    · exact .inl ⟨_, computed, rfl⟩
    · exact .inr ⟨overflow, computes, rfl, rfl⟩
  | floats computes numbers float =>
    rw [strict_of_computes computes]
    subst l r
    obtain ⟨x, computed⟩ := arithmetic_floats op numbers float
    exact .inl ⟨_, computed, rfl⟩
  | joined =>
    obtain ⟨s, rfl⟩ := Value.exists_string l
    obtain ⟨t, rfl⟩ := Value.exists_string r
    exact .inl ⟨.string (s ++ t), rfl, rfl⟩
  | ordered orders numbers =>
    rw [strict_of_orders orders]
    subst l r
    obtain ⟨order, ordered⟩ := order?_numbers op numbers
    obtain ⟨b, compared⟩ := comparison_of_order? ordered
    exact .inl ⟨_, compared, rfl⟩
  | orderedTexts orders =>
    obtain ⟨s, rfl⟩ := Value.exists_string l
    obtain ⟨t, rfl⟩ := Value.exists_string r
    rw [strict_of_orders orders]
    have ordered : order? op (.string s) (.string t) = .ok (some (compare s t)) := rfl
    obtain ⟨b, compared⟩ := comparison_of_order? ordered
    exact .inl ⟨_, compared, rfl⟩
  | equated equates =>
    simp only [List.mem_cons, List.not_mem_nil, or_false] at equates
    rcases equates with rfl | rfl
    · exact .inl ⟨_, rfl, rfl⟩
    · exact .inl ⟨_, rfl, rfl⟩

/-- An operator that its left operand may decide takes and gives booleans. -/
theorem bool_of_gives {decided : Bool} {l r kind : Value.Kind}
    (decides : decides? op = some decided) (gives : op.Gives l r kind) :
    l = .bool ∧ r = .bool ∧ kind = .bool := by
  cases gives with
  | logical => exact ⟨rfl, rfl, rfl⟩
  | integers member | floats member | ordered member | orderedTexts member | equated member =>
    revert member decides
    cases op <;> simp [decides?, BinaryOp.arithmetic, BinaryOp.inequalities]
  | joined => cases decides

end Evaluation

/-! ## Expressions -/

namespace Expr

variable {kindOf? : String → Option Value.Kind} {e part : Expr} {α β : Type} {good : α → Prop}
  {outcome : Except EvaluationError α}

/-- An outcome of an expression is a result as it should be, or the overflow of an operator that the
expression applies to two integers. -/
def Safe (kindOf? : String → Option Value.Kind) (e : Expr) (good : α → Prop)
    (outcome : Except EvaluationError α) : Prop :=
  (∃ a, outcome = .ok a ∧ good a) ∨
    ∃ op, outcome = .error (.overflow op) ∧ e.ComputesIntegers kindOf? op

/-- What overflows in a part overflows in the whole. -/
theorem Safe.of_part (safe : part.Safe kindOf? good outcome) (contained : part.parts ⊆ e.parts) :
    e.Safe kindOf? good outcome := by
  rcases safe with result | ⟨op, overflow, computes, left, right, member, typed⟩
  · exact .inl result
  · exact .inr ⟨op, overflow, computes, left, right, contained member, typed⟩

/-- What is done with a result that is as it should be keeps the expression safe. -/
theorem Safe.bind {next : α → Except EvaluationError β} {good' : β → Prop}
    (safe : e.Safe kindOf? good outcome)
    (step : ∀ a, good a → e.Safe kindOf? good' (next a)) :
    e.Safe kindOf? good' (outcome >>= next) := by
  rcases safe with ⟨a, rfl, isGood⟩ | ⟨op, rfl, computes⟩
  · exact step a isGood
  · exact .inr ⟨op, rfl, computes⟩

/-- Where each name that has a type reads as a value of it, an expression of a type is evaluated to
a value of that type, or overflows in integers. -/
theorem HasType.evaluateWith_safe {read : String → Except ContextError Value} {kind : Value.Kind}
    (reads : ∀ name kind, kindOf? name = some kind → ∃ v, read name = .ok v ∧ v.kind = kind)
    (typed : e.HasType kindOf? kind) :
    e.Safe kindOf? (Value.kind · = kind) (e.evaluateWith read) := by
  induction typed with
  | literal value => exact .inl ⟨value, rfl, rfl⟩
  | var visible =>
    obtain ⟨v, found, same⟩ := reads _ _ visible
    exact .inl ⟨v, by rw [evaluateWith, found]; rfl, same⟩
  | @not operand _ ih =>
    have inside : operand.parts ⊆ (Expr.not operand).parts := List.subset_cons_self ..
    refine (ih.of_part inside).bind fun v isBool => ?_
    obtain ⟨b, rfl⟩ := Value.exists_bool isBool
    exact .inl ⟨_, rfl, rfl⟩
  | @binary op left right l r kind typedLeft typedRight gives ihLeft ihRight =>
    have insideLeft : left.parts ⊆ (Expr.binary op left right).parts :=
      List.subset_cons_of_subset _ (List.subset_append_left ..)
    have insideRight : right.parts ⊆ (Expr.binary op left right).parts :=
      List.subset_cons_of_subset _ (List.subset_append_right ..)
    refine (ihLeft.of_part insideLeft).bind fun v isLeft => ?_
    -- Only an operator that reads both operands can overflow.
    cases decides : Evaluation.decides? op with
    | none =>
      refine (ihRight.of_part insideRight).bind fun w isRight => ?_
      subst isLeft isRight
      rcases Evaluation.strict_of_gives decides gives with done | ⟨overflow, computes, both⟩
      · exact .inl done
      · rw [both.1] at typedLeft
        rw [both.2] at typedRight
        exact .inr ⟨op, overflow, computes, left, right, self_mem_parts _, typedLeft, typedRight⟩
    | some decided =>
      obtain ⟨rfl, rfl, rfl⟩ := Evaluation.bool_of_gives decides gives
      obtain ⟨b, rfl⟩ := Value.exists_bool isLeft
      dsimp only [Evaluation.expectBool, bind, Except.bind]
      split
      · exact .inl ⟨_, rfl, rfl⟩
      · refine (ihRight.of_part insideRight).bind fun w isRight => ?_
        obtain ⟨c, rfl⟩ := Value.exists_bool isRight
        exact .inl ⟨_, rfl, rfl⟩

end Expr

/-! ## Contexts in memory -/

namespace Extent

/-- The value of the variable that is visible under a name, which the innermost context that has one
holds. -/
def visible? (memories : List Memory) (name : String) : Option Value :=
  memories.findSome? fun m => m.vars.get? name

/-- The types of the visible variables. -/
def kindOf? (memories : List Memory) (name : String) : Option Value.Kind :=
  (visible? memories name).map Value.kind

theorem get_ofMemories {memories : List Memory} {name : String} {v : Value}
    (visible : visible? memories name = some v) : (ofMemories memories).get name = .ok v := by
  simp only [get, ofMemories]
  induction memories with
  | nil => cases visible
  | cons m outer ih =>
    rw [visible?, List.findSome?_cons] at visible
    have asked : (Context.memory m).get name = m.get name := rfl
    rw [List.map_cons, getIn, asked, Memory.get]
    cases held : m.vars.get? name with
    | some inner =>
      rw [held] at visible
      exact congrArg Except.ok (Option.some.inj visible)
    | none =>
      rw [held] at visible
      exact ih visible

/-- Whatever the contexts hold, an expression that has a type over their visible variables is
evaluated to a value of this type, and a guard on a boolean expression to a boolean, unless an
operator overflows that the expression applies to two integers. -/
theorem typed_evaluate_safe (memories : List Memory) :
    (∀ (e : Expr) (kind : Value.Kind), e.HasType (kindOf? memories) kind →
      e.Safe (kindOf? memories) (Value.kind · = kind) (e.evaluate (ofMemories memories))) ∧
    ∀ g : Guard, g.expression.HasType (kindOf? memories) .bool →
      g.expression.Safe (kindOf? memories) (fun _ => True) (g.evaluate (ofMemories memories)) := by
  have reads (name : String) (kind : Value.Kind) (typed : kindOf? memories name = some kind) :
      ∃ v, (ofMemories memories).get name = .ok v ∧ v.kind = kind := by
    obtain ⟨v, visible, same⟩ := Option.map_eq_some_iff.mp typed
    exact ⟨v, get_ofMemories visible, same⟩
  refine ⟨fun e kind typed => typed.evaluateWith_safe reads, fun g typed => ?_⟩
  refine (typed.evaluateWith_safe reads).bind fun v isBool => ?_
  obtain ⟨b, rfl⟩ := Value.exists_bool isBool
  exact .inl ⟨b, rfl, trivial⟩

/-- A count that cannot grow, over a text that it hides and a limit. -/
def fullCount : List Memory := [
  ⟨.machineLocal, .ofList [("count", .integer Int64.maxValue)]⟩,
  ⟨.persistent, .ofList [("count", .string "hidden"), ("limit", .float (.ofInt 4))]⟩]

theorem typed_evaluate_safe_fullCount :
    let next := Expr.binary .add (.var "count") (.literal (.integer 1))
    let g := Guard.ofExpr (.binary .lt next (.var "limit"))
    next.HasType (kindOf? fullCount) .integer ∧
      next.Safe (kindOf? fullCount) (Value.kind · = .integer)
        (next.evaluate (ofMemories fullCount)) ∧
      g.expression.HasType (kindOf? fullCount) .bool ∧
      g.evaluate (ofMemories fullCount) = .error (.overflow .add) ∧
      g.expression.ComputesIntegers (kindOf? fullCount) .add := by
  intro next g
  obtain ⟨expressions, guards⟩ := typed_evaluate_safe fullCount
  have typedNext : next.HasType (kindOf? fullCount) .integer :=
    .binary (.var rfl) (.literal (.integer 1)) (.integers (by decide))
  have typed : g.expression.HasType (kindOf? fullCount) .bool :=
    .binary typedNext (.var rfl) (.ordered (by decide) ⟨rfl, rfl⟩)
  have overflow : g.evaluate (ofMemories fullCount) = .error (.overflow .add) := rfl
  refine ⟨typedNext, expressions next .integer typedNext, typed, overflow, ?_⟩
  rcases guards g typed with ⟨b, passed, -⟩ | ⟨op, failed, computes⟩
  · rw [overflow] at passed
    cases passed
  · rw [overflow] at failed
    obtain rfl := EvaluationError.overflow.inj (Except.error.inj failed)
    exact computes

end Extent

end StateMachines
