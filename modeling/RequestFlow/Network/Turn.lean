import RequestFlow.Failure
import RequestFlow.Reply

/-!
# Turns of a transport

What a transport does for one attempt: it delivers outcomes one after the other, each after some
time, and then returns or raises a fault.  A well-behaved turn delivers exactly one outcome and
returns; the others are those that a network has to survive.
-/

namespace RequestFlow

/-- The outcome of an attempt, over the streams `σ` of its replies. -/
inductive Outcome (σ : Type)
  | reply (r : Reply σ)
  | authFailure (message : Bytes)
  | failure (f : Failure)
  deriving DecidableEq, Repr

namespace Outcome

/-- The open stream that came with the outcome. -/
def stream? : Outcome Stream → Option Stream
  | reply r => r.stream
  | _ => none

/-- Gives the stream of an outcome a number, and tells the next free number. -/
def number (next : Nat) : Outcome Source → Outcome Stream × Nat
  | reply r =>
    match r.stream with
    | none => (reply { r with stream := none }, next)
    | some source => (reply { r with stream := some ⟨next, source⟩ }, next + 1)
  | authFailure message => (authFailure message, next)
  | failure f => (failure f, next)

end Outcome

structure Delivery where
  /-- Nanoseconds that pass before the outcome is there. -/
  delay : Int := 0
  outcome : Outcome Source
  deriving DecidableEq, Repr

structure Turn where
  deliveries : List Delivery
  /-- Nanoseconds that pass before the turn ends. -/
  delay : Int := 0
  /-- The fault that the turn ends with, if any. -/
  fault : Option Fault := none
  deriving DecidableEq, Repr

namespace Turn

def deliver (outcome : Outcome Source) (delay : Int := 0) : Turn :=
  { deliveries := [{ delay, outcome }] }

def raise (fault : Fault) (delay : Int := 0) : Turn :=
  { deliveries := [], delay, fault := some fault }

/-- The turn taken when a script has no turn left. -/
def exhausted : Turn := deliver (.failure ⟨.io, text "no scripted step left"⟩)

end Turn

end RequestFlow
