import RequestFlow.RequestError

/-!
# Traces

What happens during a run, in order.  Streams, buffers and calls are named by the number they were
given when they were made, so that a trace tells which of them an event is about.
-/

namespace RequestFlow

inductive Level
  | debug
  | info
  | error
  deriving DecidableEq, Repr

structure LogRecord where
  level : Level
  message : Bytes
  deriving DecidableEq, Repr

inductive Event
  | log (record : LogRecord)
  /-- A buffer was taken from a pool. -/
  | lease (asked buffer capacity : Nat)
  /-- A buffer was given back to a pool. -/
  | release (buffer capacity : Nat)
  /-- A stream was read into `room` bytes and gave `got`. -/
  | read (stream room got : Nat)
  | readFault (stream room : Nat) (message : Bytes)
  | close (stream : Nat)
  /-- The transport was asked to carry out an attempt of a call. -/
  | sent (call : Nat) (extraHeaders : List Header) (timeout : Int)
  /-- The executor was handed a task. -/
  | submit
  | success (call request : Nat) (response : Response)
  | failure (call request : Nat) (error : RequestError)
  deriving DecidableEq, Repr

abbrev Trace := Array Event

namespace Event

def isPoolEvent : Event → Bool
  | lease .. | release .. => true
  | _ => false

def isLog : Event → Bool
  | log _ => true
  | _ => false

end Event

namespace Trace

def addLogs (t : Trace) (records : List LogRecord) : Trace :=
  records.foldl (fun t r => t.push (.log r)) t

def logs (records : List LogRecord) : Trace := addLogs #[] records

/-- Bytes given by all reads together. -/
def bytesRead (t : Trace) : Nat :=
  t.foldl (fun n e => match e with | .read _ _ got => n + got | _ => n) 0

def closes (t : Trace) : Nat :=
  t.foldl (fun n e => match e with | .close _ => n + 1 | _ => n) 0

theorem toList_addLogs (t : Trace) (records : List LogRecord) :
    (addLogs t records).toList = t.toList ++ records.map Event.log := by
  unfold addLogs
  induction records generalizing t with
  | nil => simp
  | cons r rs ih => rw [List.foldl_cons, ih]; simp

end Trace

end RequestFlow
