import StateMachines.Context.Memory

/-! # Events

An event carries data, which its handler reads as the variables of a context of its own.
-/

namespace StateMachines

/-- Something that happened, with data for its handlers. -/
structure Event where
  name : String
  data : List Variable
deriving DecidableEq, Repr

namespace Event

/-- The data as a context; two fields of one name are an error. -/
def dataContext (e : Event) : Except ContextError Memory := Memory.ofVariables .eventData e.data

end Event

end StateMachines
