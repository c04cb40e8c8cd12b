import RequestFlow.Buffer.Pool
import RequestFlow.Config
import RequestFlow.Failure.Decision
import RequestFlow.Network.Turn

/-!
# The state of a run

Everything that a run of the network can see or change: the requests, the calls made for them and the
attempts of these calls, the transport, the executor that copies bodies, the buffer pool, the clock
and the trace.  Calls and attempts are named by their place in the order they were made.
-/

namespace RequestFlow

/-! ## Calls -/

/-- What the caller does once it has been told the result of a call. -/
inductive Reaction
  | rest
  | raise (message : Bytes)
  /-- Performs another request, and then raises a fault if one is given. -/
  | perform (request : Nat) (onSuccess onError : Reaction) (fault : Option Bytes)
  deriving DecidableEq, Repr

/-- The wish to have a request performed. -/
structure Performance where
  request : Nat
  onSuccess : Reaction := .rest
  onError : Reaction := .rest
  deriving DecidableEq, Repr

structure Call where
  request : Nat
  onSuccess : Reaction
  onError : Reaction
  classifier : Nat
  /-- Attempts that were registered and have not returned. -/
  pending : Nat := 0
  completed : Bool := false
  deriving DecidableEq, Repr

namespace Call

/-- Registers an attempt; the call that brings the count from zero has to run the attempts. -/
def register (c : Call) : Bool × Call := (c.pending == 0, { c with pending := c.pending + 1 })

/-- Takes a returned attempt off the count, and tells whether another one is registered. -/
def retire (c : Call) : Bool × Call := (c.pending != 1, { c with pending := c.pending - 1 })

end Call

structure Attempt where
  call : Nat
  /-- The clock when the attempt began. -/
  start : Int
  resolved : Bool := false
  deriving DecidableEq, Repr

/-- A body to be copied from a stream. -/
structure CopyTask where
  attempt : Nat
  status : StatusCode
  headers : List Header
  stream : Stream
  length : Int
  deriving DecidableEq, Repr

/-! ## Collaborators -/

/-- A transport that follows a script. -/
structure Transport where
  script : List Turn := []
  /-- Attempts wait until they are resolved one by one. -/
  deferred : Bool := false
  waiting : List Nat := []
  /-- Attempts being carried out, one inside the other. -/
  depth : Nat := 0
  maxDepth : Nat := 0
  /-- Extra headers and timeout of every attempt that was sent. -/
  sent : Array (List Header × Int) := #[]
  deriving DecidableEq, Repr

namespace Transport

def nextTurn (t : Transport) : Turn × Transport :=
  match t.script with
  | [] => (Turn.exhausted, t)
  | turn :: rest => (turn, { t with script := rest })

def noteSent (t : Transport) (headers : List Header) (timeout : Int) : Transport :=
  { t with sent := t.sent.push (headers, timeout) }

def enter (t : Transport) : Transport :=
  { t with depth := t.depth + 1, maxDepth := max t.maxDepth (t.depth + 1) }

def leave (t : Transport) : Transport := { t with depth := t.depth - 1 }

end Transport

/-- What an executor does with a task that is submitted; only the first way is in order. -/
inductive SubmitMode
  | queue
  | runNow
  | runThenFail
  | queueThenFail
  deriving DecidableEq, Repr

structure Executor where
  /-- A worker takes the tasks by itself; otherwise they wait until they are run. -/
  hasWorker : Bool := false
  /-- The network holds the executor. -/
  attached : Bool := true
  /-- Somebody else holds the executor. -/
  held : Bool := true
  refusing : Bool := false
  mode : SubmitMode := .queue
  queue : List CopyTask := []
  submitted : Nat := 0
  deriving DecidableEq, Repr

namespace Executor

def isAlive (e : Executor) : Bool := e.attached || e.held

def enqueue (e : Executor) (t : CopyTask) : Executor :=
  { e with queue := e.queue ++ [t], submitted := e.submitted + 1 }

end Executor

/-! ## The whole state -/

structure World where
  config : Config := {}
  pool : Pool := .bestFit {}
  /-- What the pool does is part of the trace. -/
  poolTraced : Bool := true
  /-- The network has not been destroyed. -/
  present : Bool := true
  classifiers : Array Classifier := #[.standard]
  /-- The classifier of calls to come. -/
  classifier : Nat := 0
  requests : Array (Option Request) := #[]
  calls : Array Call := #[]
  attempts : Array Attempt := #[]
  transport : Transport := {}
  executor : Option Executor := some {}
  /-- Nanoseconds. -/
  clock : Int := 0
  /-- Streams made so far. -/
  streams : Nat := 0
  trace : Trace := #[]
  deriving Repr

namespace World

instance : Inhabited Request := ⟨{ url := [], method := [] }⟩

instance : Inhabited Call := ⟨⟨0, .rest, .rest, 0, 0, false⟩⟩

instance : Inhabited Attempt := ⟨⟨0, 0, false⟩⟩

/-! ## Looking things up -/

def callAt (w : World) (c : Nat) : Call := w.calls.getD c default

def attemptAt (w : World) (a : Nat) : Attempt := w.attempts.getD a default

/-- The call that an attempt belongs to. -/
def callOf (w : World) (a : Nat) : Nat := (w.attemptAt a).call

def requestAt? (w : World) (i : Nat) : Option Request := (w.requests[i]?).getD none

/-- The request of a call. -/
def requestOf (w : World) (c : Nat) : Request :=
  (w.requestAt? (w.callAt c).request).getD default

def classifierOf (w : World) (c : Nat) : Classifier :=
  w.classifiers.getD (w.callAt c).classifier .standard

/-- Whole milliseconds since the attempt began. -/
def elapsed (w : World) (a : Nat) : Int := (w.clock - (w.attemptAt a).start).tdiv 1000000

/-! ## Changing things -/

def note (w : World) (e : Event) : World := { w with trace := w.trace.push e }

def addLogs (w : World) (records : List LogRecord) : World :=
  { w with trace := w.trace.addLogs records }

/-- Logs a line about the request of a call. -/
def logFor (w : World) (c : Nat) (level : Level) (message : Bytes) : World :=
  w.note (.log ((w.requestOf c).logLine level message))

def advance (w : World) (nanoseconds : Int) : World := { w with clock := w.clock + nanoseconds }

def setCall (w : World) (c : Nat) (call : Call) : World :=
  { w with calls := w.calls.setIfInBounds c call }

def setRequest (w : World) (c : Nat) (r : Request) : World :=
  { w with requests := w.requests.setIfInBounds (w.callAt c).request (some r) }

def setClassifier (w : World) (c : Nat) (k : Classifier) : World :=
  { w with classifiers := w.classifiers.setIfInBounds (w.callAt c).classifier k }

def resolve (w : World) (a : Nat) : World :=
  { w with attempts := w.attempts.modify a fun t => { t with resolved := true } }

def closeStream (w : World) (s : Stream) : World := { w with trace := s.close w.trace }

/-- Closes the stream of an outcome that nobody will read. -/
def closeStream? (w : World) (s : Option Stream) : World :=
  match s with
  | none => w
  | some s => w.closeStream s

/-- Adds a call and tells its number. -/
def openCall (w : World) (p : Performance) : Nat × World :=
  (w.calls.size,
    { w with calls := w.calls.push ⟨p.request, p.onSuccess, p.onError, w.classifier, 0, false⟩ })

/-- Adds an attempt that begins now and tells its number. -/
def openAttempt (w : World) (c : Nat) : Nat × World :=
  (w.attempts.size, { w with attempts := w.attempts.push ⟨c, w.clock, false⟩ })

/-- Replaces the executor, which must be there. -/
def setExecutor (w : World) (e : Executor) : World := { w with executor := some e }

/-- Whether the network has an executor to copy bodies on. -/
def hasExecutor (w : World) : Bool :=
  match w.executor with
  | none => false
  | some e => e.attached

end World

end RequestFlow
