import RequestFlow.BodyCopy
import RequestFlow.Network.World
import RequestFlow.Reception

/-!
# The network, step by step

A run is a sequence of small steps.  The control says what is done next, or that it was done, or that
a fault is on its way; the stack says what is waiting for that.  So a retry decided inside a
transport's callback, inside a task of the executor or inside the loop of attempts is the same
instruction over a different stack.

A call runs its attempts in one loop: `dispatch` registers an attempt, and only the one that finds
nothing registered enters the loop; the others leave their attempt to it.  Each attempt is resolved
once, by the first outcome delivered for it or by the fault that the transport raised before any;
later outcomes are dropped and their streams closed.
-/

namespace RequestFlow

/-! ## Machines -/

/-- What an operation gives back. -/
inductive Answer
  | nothing
  | flag (b : Bool)
  | count (n : Nat)
  deriving DecidableEq, Repr

inductive Instr
  | perform (p : Performance)
  /-- Registers an attempt of a call. -/
  | dispatch (call : Nat)
  /-- Begins an attempt of a call. -/
  | begin (call : Nat)
  /-- Hands an attempt to the transport. -/
  | send (attempt : Nat) (extraHeaders : List Header)
  /-- Lets the transport take its turn. -/
  | turn (attempt : Nat) (t : Turn)
  | deliver (attempt : Nat) (o : Outcome Stream)
  /-- Hands a body to the executor. -/
  | schedule (task : CopyTask)
  | unscheduled (task : CopyTask) (f : Fault)
  | copy (task : CopyTask)
  /-- Looks at a response whose body is complete. -/
  | receive (attempt : Nat) (status : StatusCode) (headers : List Header) (body : Bytes)
  /-- Has a failed attempt classified. -/
  | fail (call : Nat) (context : FailureContext)
  /-- Does what the classifier decided. -/
  | settle (call : Nat) (networkTime : Int) (answer : Except Fault Decision)
  /-- Tells the caller the result of a call. -/
  | complete (call : Nat) (result : Except RequestError Response)
  | react (r : Reaction)
  /-- Runs the queued tasks; `done` of them have run. -/
  | runQueue (done : Nat)
  /-- Lets the worker run the queued tasks. -/
  | serve

/-- What waits for the present instruction to end. -/
inductive Frame
  /-- The loop that runs the attempts of a call. -/
  | attempts (call : Nat)
  /-- The transport at work on an attempt; a fault before the attempt is resolved resolves it. -/
  | sending (attempt : Nat)
  /-- The transport's own count of attempts being carried out. -/
  | nested
  /-- The rest of the transport's turn. -/
  | turn (attempt : Nat) (t : Turn)
  /-- A stream that is closed in any case. -/
  | holding (s : Stream)
  /-- An executor that runs a task where it was submitted, and raises a fault after it or not. -/
  | submitting (task : CopyTask) (fails : Bool)
  /-- The rest of a reaction. -/
  | reacting (fault : Option Bytes)
  | answering (a : Answer)
  | queue (done : Nat)
  | worker

inductive Control
  | run (i : Instr)
  | done (a : Answer)
  | raised (f : Fault)

structure Machine where
  world : World
  control : Control
  stack : List Frame

namespace Machine

/-! ## Instructions -/

def doing (w : World) (i : Instr) (stack : List Frame) : Machine := ⟨w, .run i, stack⟩

def finished (w : World) (stack : List Frame) : Machine := ⟨w, .done .nothing, stack⟩

def raising (w : World) (f : Fault) (stack : List Frame) : Machine := ⟨w, .raised f, stack⟩

/-- The fault of an executor that breaks its rules. -/
def submitBroke : Fault := .runtime (text "submit broke")

def perform (w : World) (p : Performance) (stack : List Frame) : Machine :=
  if !w.present then finished w stack
  else if !w.hasExecutor then raising w .noExecutor stack
  else if (w.requestAt? p.request).isNone then raising w .noRequest stack
  else
    let (c, w) := w.openCall p
    doing w (.dispatch c) stack

def dispatch (w : World) (c : Nat) (stack : List Frame) : Machine :=
  let (first, call) := (w.callAt c).register
  let w := w.setCall c call
  if first then doing w (.begin c) (.attempts c :: stack) else finished w stack

def begin (w : World) (c : Nat) (stack : List Frame) : Machine :=
  let (a, w) := w.openAttempt c
  match CacheEntry.conditionalHeaders (w.requestOf c).cache with
  | .error f =>
    let w := w.resolve a
    doing w (.fail c { failure := ⟨.io, f.message⟩, networkTime := w.elapsed a }) stack
  | .ok headers => doing w (.send a headers) (.sending a :: stack)

def send (w : World) (a : Nat) (headers : List Header) (stack : List Frame) : Machine :=
  let timeout := (w.requestOf (w.callOf a)).timeout
  let w := w.note (.sent (w.callOf a) headers timeout)
  let t := w.transport.noteSent headers timeout
  if t.deferred then
    finished { w with transport := { t with waiting := t.waiting ++ [a] } } stack
  else
    let (turn, t) := t.enter.nextTurn
    doing { w with transport := t } (.turn a turn) (.nested :: stack)

def takeTurn (w : World) (a : Nat) (t : Turn) (stack : List Frame) : Machine :=
  match t.deliveries with
  | [] =>
    let w := w.advance t.delay
    match t.fault with
    | none => finished w stack
    | some fault => raising w fault stack
  | d :: rest =>
    let (outcome, next) := d.outcome.number w.streams
    let w := { w.advance d.delay with streams := next }
    doing w (.deliver a outcome) (.turn a { t with deliveries := rest } :: stack)

/-- What to do with the first reply for an attempt. -/
def openReply (w : World) (a : Nat) (r : Reply Stream) (stack : List Frame) : Machine :=
  if r.status = StatusCode.notModified then
    let response :=
      CacheEntry.notModified r.headers (w.requestOf (w.callOf a)).cache (w.elapsed a)
    doing w (.complete (w.callOf a) (.ok response)) ((r.stream.map Frame.holding).toList ++ stack)
  else
    match r.bytes, r.stream with
    | some body, _ => doing w (.receive a r.status r.headers body) stack
    | none, none => doing w (.receive a r.status r.headers []) stack
    | none, some s => doing w (.schedule ⟨a, r.status, r.headers, s, r.length⟩) stack

def deliver (w : World) (a : Nat) (o : Outcome Stream) (stack : List Frame) : Machine :=
  let c := w.callOf a
  if (w.attemptAt a).resolved then
    let w := w.logFor c .error (text "Transport resolved the same attempt twice, ignoring")
    finished (w.closeStream? o.stream?) stack
  else
    let w := w.resolve a
    match o with
    | .authFailure message =>
      doing w (.complete c (.error
        { kind := .authFailure, details := message, networkTime := w.elapsed a })) stack
    | .failure f => doing w (.fail c { failure := f, networkTime := w.elapsed a }) stack
    | .reply r => openReply w a r stack

def schedule (w : World) (task : CopyTask) (stack : List Frame) : Machine :=
  match w.executor with
  | none => doing w (.unscheduled task .executorGone) (.holding task.stream :: stack)
  | some e =>
    if !e.isAlive then
      doing w (.unscheduled task .executorGone) (.holding task.stream :: stack)
    else
      let w := w.note .submit
      match e.mode with
      | .runNow => doing w (.copy task) (.submitting task false :: stack)
      | .runThenFail => doing w (.copy task) (.submitting task true :: stack)
      | .queue =>
        if e.refusing then
          doing w (.unscheduled task .executorRefuses) (.holding task.stream :: stack)
        else finished (w.setExecutor (e.enqueue task)) stack
      | .queueThenFail =>
        if e.refusing then
          doing w (.unscheduled task .executorRefuses) (.holding task.stream :: stack)
        else doing (w.setExecutor (e.enqueue task)) (.unscheduled task submitBroke) stack

/-- The context of an attempt whose body was not copied. -/
def bodyContext (w : World) (task : CopyTask) (f : Fault) : FailureContext :=
  { failure := ⟨.io, f.message⟩
    response := some ⟨task.status, task.headers, none⟩
    networkTime := w.elapsed task.attempt }

def unscheduled (w : World) (task : CopyTask) (f : Fault) (stack : List Frame) : Machine :=
  let c := w.callOf task.attempt
  let w := w.logFor c .error (text "Unable to schedule body copy: " ++ f.message)
  doing w (.fail c (bodyContext w task f)) stack

/-- The events of a copy that belong to the trace. -/
def tracedEvents (w : World) (t : Trace) : Trace :=
  if w.poolTraced then t else t.filter fun e => !e.isPoolEvent

def copy (w : World) (task : CopyTask) (stack : List Frame) : Machine :=
  let copied := copyBody task.stream.id task.stream.source task.length w.pool w.config.bodyBuffer
  let w := { w.advance copied.elapsed with
    pool := copied.pool, trace := w.trace ++ tracedEvents w copied.trace }
  match copied.body with
  | .error f => doing w (.fail (w.callOf task.attempt) (bodyContext w task f)) stack
  | .ok body => doing w (.receive task.attempt task.status task.headers body) stack

def receive (w : World) (a : Nat) (status : StatusCode) (headers : List Header) (body : Bytes)
    (stack : List Frame) : Machine :=
  let c := w.callOf a
  let time := w.elapsed a
  let w := w.addLogs (receptionRecords w.config (w.requestOf c) time body.length status)
  match RequestFlow.receive status headers body time with
  | .delivered response => doing w (.complete c (.ok response)) stack
  | .failed context => doing w (.fail c context) stack

def fail (w : World) (c : Nat) (context : FailureContext) (stack : List Frame) : Machine :=
  let w := w.logFor c .debug (text "Attempt failed (" ++ context.failure.kind.label ++
    text "): " ++ context.failure.message)
  let (verdict, classifier) := (w.classifierOf c).judge (w.requestOf c) context
  let w := ((w.setRequest c verdict.request).setClassifier c classifier).addLogs verdict.records
  doing w (.settle c context.networkTime verdict.answer) stack

def settle (w : World) (c : Nat) (networkTime : Int) (answer : Except Fault Decision)
    (stack : List Frame) : Machine :=
  match answer with
  | .error f =>
    let w := w.logFor c .error (text "Failure classification error: " ++ f.message)
    doing w (.complete c (.error
      { kind := .network, details := text "failure classification error: " ++ f.message
        networkTime })) stack
  | .ok (.final error) => doing w (.complete c (.error error)) stack
  | .ok (.retry reason) =>
    let w := w.logFor c .debug (text "Retrying (" ++ reason.label ++ text ")")
    doing w (.dispatch c) stack

def complete (w : World) (c : Nat) (result : Except RequestError Response) (stack : List Frame) :
    Machine :=
  let call := w.callAt c
  if call.completed then
    finished (w.logFor c .error (text "Request already completed, dropping new outcome")) stack
  else
    let w := w.setCall c { call with completed := true }
    match result with
    | .ok response =>
      doing (w.note (.success c call.request response)) (.react call.onSuccess) stack
    | .error error => doing (w.note (.failure c call.request error)) (.react call.onError) stack

def react (w : World) (r : Reaction) (stack : List Frame) : Machine :=
  match r with
  | .rest => finished w stack
  | .raise message => raising w (.runtime message) stack
  | .perform request onSuccess onError fault =>
    doing w (.perform ⟨request, onSuccess, onError⟩) (.reacting fault :: stack)

/-- Takes the oldest task off the executor's queue. -/
def takeTask (w : World) : Option (CopyTask × World) :=
  match w.executor with
  | none => none
  | some e =>
    match e.queue with
    | [] => none
    | task :: rest => some (task, w.setExecutor { e with queue := rest })

def runQueue (w : World) (n : Nat) (stack : List Frame) : Machine :=
  match takeTask w with
  | none => ⟨w, .done (.count n), stack⟩
  | some (task, w) => doing w (.copy task) (.queue n :: stack)

def serve (w : World) (stack : List Frame) : Machine :=
  match takeTask w with
  | none => finished w stack
  | some (task, w) => doing w (.copy task) (.worker :: stack)

def exec (w : World) (i : Instr) (stack : List Frame) : Machine :=
  match i with
  | .perform p => perform w p stack
  | .dispatch c => dispatch w c stack
  | .begin c => begin w c stack
  | .send a headers => send w a headers stack
  | .turn a t => takeTurn w a t stack
  | .deliver a o => deliver w a o stack
  | .schedule task => schedule w task stack
  | .unscheduled task f => unscheduled w task f stack
  | .copy task => copy w task stack
  | .receive a status headers body => receive w a status headers body stack
  | .fail c context => fail w c context stack
  | .settle c time answer => settle w c time answer stack
  | .complete c result => complete w c result stack
  | .react r => react w r stack
  | .runQueue n => runQueue w n stack
  | .serve => serve w stack

/-! ## Frames -/

/-- An attempt has returned to the loop of its call. -/
def nextAttempt (w : World) (c : Nat) (stack : List Frame) : Machine :=
  let (more, call) := (w.callAt c).retire
  let w := w.setCall c call
  if more then doing w (.begin c) (.attempts c :: stack) else finished w stack

/-- Goes on with a frame once what it waited for is done. -/
def resume (w : World) (f : Frame) (stack : List Frame) : Machine :=
  match f with
  | .attempts c => nextAttempt w c stack
  | .sending _ => finished w stack
  | .nested => finished { w with transport := w.transport.leave } stack
  | .turn attempt t => doing w (.turn attempt t) stack
  | .holding s => finished (w.closeStream s) stack
  | .submitting task fails =>
    if fails then doing w (.unscheduled task submitBroke) stack else finished w stack
  | .reacting none => finished w stack
  | .reacting (some message) => raising w (.runtime message) stack
  | .answering answer => ⟨w, .done answer, stack⟩
  | .queue n => doing w (.runQueue (n + 1)) stack
  | .worker => doing w .serve stack

/-- A fault passes a frame, or is stopped by it. -/
def unwind (w : World) (fault : Fault) (f : Frame) (stack : List Frame) : Machine :=
  match f with
  | .sending a =>
    if (w.attemptAt a).resolved then raising w fault stack
    else
      let w := w.resolve a
      doing w (.fail (w.callOf a)
        { failure := ⟨.io, fault.message⟩, networkTime := w.elapsed a }) stack
  | .holding s => raising (w.closeStream s) fault stack
  | .submitting task _ => doing w (.unscheduled task fault) stack
  | .worker =>
    let w := w.note (.log ⟨.error, text "Uncaught exception in ThreadPool task: " ++
      fault.message⟩)
    doing w .serve stack
  | _ => raising w fault stack

/-! ## Running -/

def step (m : Machine) : Machine :=
  match m.control, m.stack with
  | .run i, stack => exec m.world i stack
  | .done _, [] => m
  | .raised _, [] => m
  | .done _, f :: stack => resume m.world f stack
  | .raised fault, f :: stack => unwind m.world fault f stack

/-- Nothing is left to do. -/
def isIdle (m : Machine) : Bool :=
  match m.control, m.stack with
  | .run _, _ => false
  | _, [] => true
  | _, _ :: _ => false

/-- At most `n` steps, ending when nothing is left to do. -/
def run : Nat → Machine → Machine
  | 0, m => m
  | n + 1, m => if m.isIdle then m else run n m.step

/-- The result of a machine at rest. -/
def result (m : Machine) : Except Fault Answer :=
  match m.control with
  | .run _ => .ok .nothing
  | .done a => .ok a
  | .raised f => .error f

end Machine

end RequestFlow
