import RequestFlow.Network.Machine

/-!
# Sessions with a network

A session builds the collaborators of a network and then works it from outside: performing requests,
resolving attempts, running queued tasks, and taking collaborators away.  Each operation runs the
machine until it rests; `World.budget` bounds the steps that this can take by the retries, outcomes
and reactions that are still in store.
-/

namespace RequestFlow

inductive Operation
  | perform (p : Performance)
  /-- Runs the queued tasks, and those queued meanwhile. -/
  | runTasks
  | refuseTasks (on : Bool)
  | deferAttempts (on : Bool)
  /-- Resolves the attempt that has waited longest. -/
  | resolve
  | advance (nanoseconds : Int)
  | classifyWith (c : Classifier)
  /-- The network lets go of its executor. -/
  | detachExecutor
  | dropNetwork
  /-- All others let go of the executor. -/
  | dropExecutor
  | submitMode (m : SubmitMode)
  deriving DecidableEq, Repr

/-! ## Budget -/

/-- Requests that a reaction may perform. -/
def Reaction.performs : Reaction → Nat
  | .perform _ onSuccess onError _ => 1 + onSuccess.performs + onError.performs
  | _ => 0

def Performance.performs (p : Performance) : Nat :=
  1 + p.onSuccess.performs + p.onError.performs

def Operation.performs : Operation → Nat
  | .perform p => p.performs
  | _ => 0

namespace World

/-- Retries that policies and classifiers may still grant. -/
def retriesLeft (w : World) : Nat :=
  w.requests.foldl (fun n r => n + (r.map fun r => r.policy.left).getD 0) 0 +
    w.classifiers.foldl (fun n c => n + c.left) 0

/-- Requests that the reactions of unfinished calls may perform. -/
def performsLeft (w : World) : Nat :=
  w.calls.foldl (fun n c =>
    if c.completed then n else n + c.onSuccess.performs + c.onError.performs) 0

/-- Outcomes in store. -/
def deliveriesLeft (w : World) : Nat :=
  w.transport.script.foldl (fun n t => n + t.deliveries.length) 0

def tasksLeft (w : World) : Nat :=
  match w.executor with
  | none => 0
  | some e => e.queue.length

/-- More steps than an outcome, an attempt or a task takes. -/
def stepsEach : Nat := 64

/-- Steps within which an operation that performs `n` requests comes to rest. -/
def budget (w : World) (n : Nat) : Nat :=
  stepsEach * (1 + n + w.retriesLeft + w.performsLeft + w.deliveriesLeft + w.tasksLeft)

/-! ## Operations -/

/-- Closes the streams of tasks that will never run, if the executor is gone. -/
def settleExecutor (w : World) : World :=
  match w.executor with
  | none => w
  | some e =>
    if e.isAlive then w
    else
      let w := e.queue.foldl (fun w t => w.closeStream t.stream) w
      w.setExecutor { e with queue := [] }

def mapExecutor (w : World) (f : Executor → Executor) : World :=
  { w with executor := w.executor.map f }

/-- Replaces the classifier for the calls to come. -/
def addClassifier (w : World) (c : Classifier) : World :=
  { w with classifier := w.classifiers.size, classifiers := w.classifiers.push c }

/-- The machine that carries out an operation. -/
def begin (w : World) : Operation → Machine
  | .perform p => Machine.doing w (.perform p) []
  | .runTasks => Machine.doing w (.runQueue 0) []
  | .refuseTasks on => Machine.finished (w.mapExecutor fun e => { e with refusing := on }) []
  | .deferAttempts on =>
    Machine.finished { w with transport := { w.transport with deferred := on } } []
  | .resolve =>
    match w.transport.waiting with
    | [] => ⟨w, .done (.flag false), []⟩
    | a :: rest =>
      let (turn, t) := { w.transport with waiting := rest }.nextTurn
      Machine.doing { w with transport := t } (.turn a turn) [.answering (.flag true)]
  | .advance ns => Machine.finished (w.advance ns) []
  | .classifyWith c => Machine.finished (w.addClassifier c) []
  | .detachExecutor =>
    Machine.finished (w.mapExecutor fun e => { e with attached := false }).settleExecutor []
  | .dropNetwork =>
    let w := { w with present := false }
    Machine.finished (w.mapExecutor fun e => { e with attached := false }).settleExecutor []
  | .dropExecutor =>
    Machine.finished (w.mapExecutor fun e => { e with held := false }).settleExecutor []
  | .submitMode m => Machine.finished (w.mapExecutor fun e => { e with mode := m }) []

/-- Lets the worker, if there is one, run what is queued. -/
def serveAll (w : World) : World :=
  match w.executor with
  | none => w
  | some e => if e.hasWorker then (Machine.run (w.budget 0) (Machine.doing w .serve [])).world else w

/-- Carries out an operation. -/
def apply (w : World) (op : Operation) : Except Fault Answer × World :=
  let m := Machine.run (w.budget op.performs) (w.begin op)
  (m.result, m.world.serveAll)

/-- The trace so far, and the world with an empty one. -/
def takeTrace (w : World) : Trace × World := (w.trace, { w with trace := #[] })

end World

/-! ## Construction -/

/-- What a session is built from. -/
structure Setup where
  config : Config := {}
  /-- The pool handed to the network; without one it makes its own, out of sight. -/
  pool : Option Pool := none
  requests : List (Option Request) := []
  script : Option (List Turn) := some []
  executor : Option Executor := some {}
  classifier : Option Classifier := none
  deriving Repr

/-- Builds the world of a session; a bad setting and a missing transport are faults, in this
order. -/
def Setup.build (s : Setup) : Except Fault World :=
  match s.config.validate with
  | .error f => .error f
  | .ok () =>
    match s.script with
    | none => .error .noTransport
    | some script =>
      let w : World :=
        { config := s.config
          pool := s.pool.getD (.bestFit { limit := s.config.poolLimit })
          poolTraced := s.pool.isSome
          requests := s.requests.toArray
          transport := { script }
          executor := s.executor }
      .ok (match s.classifier with
        | none => w
        | some c => w.addClassifier c)

end RequestFlow
