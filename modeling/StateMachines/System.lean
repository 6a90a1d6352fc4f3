import StateMachines.Machine.Basic

/-! # Systems

A resolved system holds its machines in the order of their declarations. Two machines collaborate
where one raises an event that the other one handles.
-/

namespace StateMachines

/-- Machines that run side by side. -/
structure System where
  name : String
  machines : Table Machine
deriving DecidableEq

/-- A machine raises an event that another one handles. -/
structure Collaboration where
  producer : String
  event : String
  consumer : String
deriving DecidableEq, Repr

namespace System

def size (s : System) : Nat := s.machines.size

def isEmpty (s : System) : Bool := s.machines.isEmpty

/-- The machine of a name. -/
def machine (s : System) (name : String) : Except LookupError Machine :=
  match s.machines.get? name with
  | some m => .ok m
  | none => .error (.unknownMachine name)

/-- The machines that are not abstract. -/
def concreteMachines (s : System) : List Machine :=
  s.machines.values.filter fun m => !m.isAbstract

/-- All collaborations of machines that are not abstract, by producer, event and consumer. -/
def collaborations (s : System) : List Collaboration :=
  s.concreteMachines.flatMap fun producer =>
    producer.outputEvents.flatMap fun event =>
      (s.concreteMachines.filter fun consumer =>
        consumer.name != producer.name && consumer.handles event).map fun consumer =>
          ⟨producer.name, event, consumer.name⟩

end System

end StateMachines
