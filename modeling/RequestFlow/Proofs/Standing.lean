import RequestFlow.Proofs.Flow
import RequestFlow.Proofs.PlainLoop

/-!
# Where a call stands

The plain loop that a world still has before it can be read off the world at any moment.  So can the
end of that loop: from the instruction that has an outcome of the call in hand, or else from the
place where the call is kept, which is the count of attempts, the transport, the executor's queue or
the trace.  `Machine.Follows` relates a machine to such an end, with a bound on the steps that the
machine takes before it rests.

The bounds are numbers that every step lowers, with the frames that it pushes counted in.  From the
beginning of an attempt to a decision to retry there are at most 21 of them, which is what `spare`
keeps for each retry.

    Instr.Leads, Instr.Ends    the outcome is in hand
    World.Awaits               the call is kept by the world
    World.Stands               the stack is one that the call may run on
-/

namespace RequestFlow

open PlainLoop (after conclusion)

/-! ## The plain loop of a world -/

namespace World

/-- The plain loop that the world has before it for a request. -/
def plain (w : World) (i : Nat) : PlainLoop where
  request := (w.requestAt? i).getD default
  script := w.transport.script.flatMap Turn.deliveries
  pool := w.pool
  bodyBuffer := w.config.bodyBuffer
  refusing := (w.executor.map Executor.refusing).getD true
  clock := w.clock
  streams := w.streams
  sent := w.transport.sent

/-- Steps kept for the retries that are left. -/
def spare (w : World) (i : Nat) : Nat := 21 * (w.plain i).request.policy.left

def Bounded (w : World) (i : Nat) : Prop := (w.plain i).request.policy.Bounded

/-- The call rests once it is answered, and those that it works with keep their rules. -/
structure Hosts (w : World) (c i : Nat) : Prop where
  inside : c < w.calls.size
  request : (w.callAt c).request = i
  onSuccess : (w.callAt c).onSuccess = .rest
  onError : (w.callAt c).onError = .rest
  classifier : w.classifierOf c = .standard
  known : ∃ r, w.requests[i]? = some (some r)
  executor : ∃ e, w.executor = some e ∧ e.isAlive = true ∧ e.mode = .queue
  script : ∀ t ∈ w.transport.script, ∃ d, t = { deliveries := [d] }

/-- The call was not answered yet, and no more than these attempts and tasks wait. -/
structure Unanswered (w : World) (c : Nat) (attempts : List Nat) (tasks : List CopyTask) :
    Prop where
  waiting : w.transport.waiting = attempts
  queued : w.queued = tasks
  completed : (w.callAt c).completed = false
  told : w.told c = []

/-- An attempt of the call that has no outcome yet. -/
structure IsOpen (w : World) (c a : Nat) : Prop where
  inside : a < w.attempts.size
  call : w.callOf a = c
  unresolved : (w.attemptAt a).resolved = false

def startOf (w : World) (a : Nat) : Int := (w.attemptAt a).start

end World

/-! ## The end that is before a machine -/

/-- The instruction has an outcome of the call in hand, and the plain loop goes on to the given end
within so many steps. -/
inductive Instr.Leads (w : World) (c i : Nat) : Instr → Option Ending → Nat → Prop
  | dispatch : Leads w c i (.dispatch c) (w.plain i).run (w.spare i + 23)
  | begin : Leads w c i (.begin c) (w.plain i).run (w.spare i + 21)
  | send {a : Nat} (headers : List Header) (h : w.IsOpen c a) :
    Leads w c i (.send a headers) (after (((w.plain i).noteSent headers).answer (w.startOf a)))
      (w.spare i + 19)
  | turn {a : Nat} (d : Delivery) (h : w.IsOpen c a) :
    Leads w c i (.turn a { deliveries := [d] }) (after ((w.plain i).take (w.startOf a) d))
      (w.spare i + 16)
  | deliver {a : Nat} (o : Outcome Stream) (h : w.IsOpen c a) :
    Leads w c i (.deliver a o) (after ((w.plain i).outcome (w.startOf a) o)) (w.spare i + 13)
  | schedule (k : CopyTask) (h : w.callOf k.attempt = c) :
    Leads w c i (.schedule k)
      (after ((w.plain i).fetch (w.startOf k.attempt) k.status k.headers k.stream k.length))
      (w.spare i + 12)
  | unscheduled (k : CopyTask) (f : Fault) (h : w.callOf k.attempt = c) :
    Leads w c i (.unscheduled k f)
      (after ((w.plain i).unread (w.startOf k.attempt) k.status k.headers f)) (w.spare i + 5)
  | copy (k : CopyTask) (h : w.callOf k.attempt = c) :
    Leads w c i (.copy k)
      (after ((w.plain i).copy (w.startOf k.attempt) k.status k.headers k.stream k.length))
      (w.spare i + 6)
  | receive {a : Nat} (status : StatusCode) (headers : List Header) (body : Bytes)
    (h : w.callOf a = c) :
    Leads w c i (.receive a status headers body)
      (after ((w.plain i).receive (w.startOf a) status headers body)) (w.spare i + 5)
  | fail (context : FailureContext) :
    Leads w c i (.fail c context) (after (.failed context, w.plain i)) (w.spare i + 4)
  | retry (time : Int) (reason : RetryReason) :
    Leads w c i (.settle c time (.ok (.retry reason))) (w.plain i).run (w.spare i + 24)

/-- The instruction has the result of the call in hand. -/
inductive Instr.Ends (w : World) (c i : Nat) : Instr → Option Ending → Nat → Prop
  | settle {time : Int} {answer : Except Fault Decision} {result : Except RequestError Response}
    (h : conclusion time answer = some result) :
    Ends w c i (.settle c time answer) (some (result, w.plain i)) 3
  | complete (result : Except RequestError Response) :
    Ends w c i (.complete c result) (some (result, w.plain i)) 2

/-- How a result is told. -/
def Event.answer (c i : Nat) : Except RequestError Response → Event
  | .ok response => .success c i response
  | .error error => .failure c i error

/-- The world keeps the call, as an attempt that is registered or in another way. -/
inductive World.Awaits (w : World) (c i : Nat) : Option Ending → Nat → Nat → Prop
  | registered (h : w.Unanswered c [] []) (hb : w.Bounded i) :
    Awaits w c i (w.plain i).run 1 (w.spare i + 22)
  | waiting {a : Nat} (h : w.Unanswered c [a] []) (hb : w.Bounded i) (ha : w.IsOpen c a) :
    Awaits w c i (after ((w.plain i).answer (w.startOf a))) 0 (w.spare i + 18)
  | queued {k : CopyTask} (h : w.Unanswered c [] [k]) (hb : w.Bounded i)
    (hk : w.callOf k.attempt = c) :
    Awaits w c i
      (after ((w.plain i).copy (w.startOf k.attempt) k.status k.headers k.stream k.length)) 0
      (w.spare i + 11)
  | answered (result : Except RequestError Response) (hw : w.transport.waiting = [])
    (hq : w.queued = []) (h : w.told c = [Event.answer c i result]) :
    Awaits w c i (some (result, w.plain i)) 0 0

/-! ## Stacks -/

/-- The frame only goes on once what is above it is done. -/
def Frame.Calm (c : Nat) : Frame → Prop
  | .attempts d => d = c
  | .turn _ t => t = { deliveries := [] }
  | .reacting _ | .submitting .. => False
  | _ => True

def Frame.cost : Frame → Nat
  | .turn .. => 2
  | .queue _ | .worker => 3
  | _ => 1

def stackCost : List Frame → Nat
  | [] => 0
  | f :: stack => f.cost + stackCost stack

def loopsIn (c : Nat) (stack : List Frame) : Nat := stack.countP (Frame.isLoopOf c)

/-- The call may run on the stack, with so many attempts registered besides the one under way. -/
structure World.Stands (w : World) (c i : Nat) (stack : List Frame) (registered : Nat) :
    Prop where
  hosts : w.Hosts c i
  frames : ∀ f ∈ stack, f.Calm c
  once : loopsIn c stack ≤ 1
  joined : registered ≤ loopsIn c stack
  pending : w.pendingOf c = loopsIn c stack + registered

/-- What a machine does that has nothing of the call in hand. -/
inductive Control.Aside : Control → Nat → Prop
  | done (a : Answer) : Aside (.done a) 0
  | turn (a : Nat) : Aside (.run (.turn a { deliveries := [] })) 1
  | react : Aside (.run (.react .rest)) 1
  | runQueue (n : Nat) : Aside (.run (.runQueue n)) 2
  | serve : Aside (.run .serve) 2

/-- The machine brings the call to the given end, and rests after at most so many steps. -/
inductive Machine.Follows (c i : Nat) : Machine → Option Ending → Nat → Prop
  | early {w : World} {x : Instr} {stack : List Frame} {e : Option Ending} {t n : Nat}
    (hs : w.Stands c i stack 0) (hu : w.Unanswered c [] []) (hb : w.Bounded i)
    (hx : x.Leads w c i e t) (hn : t + stackCost stack ≤ n) : Follows c i ⟨w, .run x, stack⟩ e n
  | ending {w : World} {x : Instr} {stack : List Frame} {e : Option Ending} {t n : Nat}
    (hs : w.Stands c i stack 0) (hu : w.Unanswered c [] []) (hx : x.Ends w c i e t)
    (hn : t + stackCost stack ≤ n) : Follows c i ⟨w, .run x, stack⟩ e n
  | aside {w : World} {x : Control} {stack : List Frame} {e : Option Ending} {r t u n : Nat}
    (hs : w.Stands c i stack r) (hw : w.Awaits c i e r t) (hx : x.Aside u)
    (hn : t + u + stackCost stack ≤ n) : Follows c i ⟨w, x, stack⟩ e n

/-! ## Worlds that differ in little -/

/-- The worlds differ in nothing that matters to where the call stands, apart from the attempts. -/
structure World.Alike (w w' : World) (c : Nat) : Prop where
  calls : w'.calls = w.calls
  classifiers : w'.classifiers = w.classifiers
  requests : w'.requests = w.requests
  executor : w'.executor = w.executor
  transport : w'.transport = w.transport
  told : w'.told c = w.told c

namespace World

theorem Hosts.of_eq {w w' : World} {c i : Nat} (h : w.Hosts c i) (calls : w'.calls = w.calls)
    (classifiers : w'.classifiers = w.classifiers) (requests : w'.requests = w.requests)
    (executor : w'.executor = w.executor) (script : w'.transport.script = w.transport.script) :
    w'.Hosts c i := by
  have call : w'.callAt c = w.callAt c := by simp only [callAt, calls]
  refine ⟨by rw [calls]; exact h.inside, by rw [call]; exact h.request,
    by rw [call]; exact h.onSuccess, by rw [call]; exact h.onError, ?_,
    by rw [requests]; exact h.known, by rw [executor]; exact h.executor,
    by rw [script]; exact h.script⟩
  have := h.classifier
  simp only [classifierOf, call, classifiers] at this ⊢
  exact this

namespace Alike

variable {w w' : World} {c i : Nat}

theorem note (w : World) {e : Event} (h : e.answers c = false) : w.Alike (w.note e) c :=
  ⟨rfl, rfl, rfl, rfl, rfl, by rw [told_note, h]; simp⟩

theorem addLogs (w : World) (records : List LogRecord) : w.Alike (w.addLogs records) c :=
  ⟨rfl, rfl, rfl, rfl, rfl, w.told_addLogs records c⟩

theorem closeStream (w : World) (s : Stream) : w.Alike (w.closeStream s) c :=
  ⟨rfl, rfl, rfl, rfl, rfl, w.told_closeStream s c⟩

theorem resolve (w : World) (a : Nat) : w.Alike (w.resolve a) c := ⟨rfl, rfl, rfl, rfl, rfl, rfl⟩

theorem openAttempt (w : World) (d : Nat) : w.Alike (w.openAttempt d).2 c :=
  ⟨rfl, rfl, rfl, rfl, rfl, rfl⟩

theorem trans {w'' : World} (h : w.Alike w' c) (h' : w'.Alike w'' c) : w.Alike w'' c :=
  ⟨h'.calls.trans h.calls, h'.classifiers.trans h.classifiers, h'.requests.trans h.requests,
    h'.executor.trans h.executor, h'.transport.trans h.transport, h'.told.trans h.told⟩

variable (h : w.Alike w' c)
include h

theorem callAt : w'.callAt c = w.callAt c := by simp only [World.callAt, h.calls]

theorem plainRequest : (w'.plain i).request = (w.plain i).request := by
  simp only [World.plain, World.requestAt?, h.requests]

theorem bounded (hb : w.Bounded i) : w'.Bounded i := by
  rwa [World.Bounded, h.plainRequest]

theorem unanswered {attempts : List Nat} {tasks : List CopyTask}
    (hu : w.Unanswered c attempts tasks) : w'.Unanswered c attempts tasks :=
  ⟨by rw [h.transport]; exact hu.waiting,
    by rw [World.queued, h.executor]; exact hu.queued,
    by rw [h.callAt]; exact hu.completed, by rw [h.told]; exact hu.told⟩

theorem stands {stack : List Frame} {r : Nat} (hs : w.Stands c i stack r) :
    w'.Stands c i stack r :=
  ⟨hs.hosts.of_eq h.calls h.classifiers h.requests h.executor (by rw [h.transport]),
    hs.frames, hs.once, hs.joined, by
      rw [World.pendingOf, h.callAt]
      exact hs.pending⟩

end Alike

namespace Stands

variable {w w' : World} {c i : Nat} {stack : List Frame} {r : Nat}

theorem of_hosts (h : w.Stands c i stack r) (hw : w'.Hosts c i)
    (call : w'.callAt c = w.callAt c) : w'.Stands c i stack r :=
  ⟨hw, h.frames, h.once, h.joined, by rw [pendingOf, call]; exact h.pending⟩

theorem push (h : w.Stands c i stack r) {f : Frame} (hf : f.Calm c)
    (hl : f.isLoopOf c = false) : w.Stands c i (f :: stack) r := by
  have loops : loopsIn c (f :: stack) = loopsIn c stack := by simp [loopsIn, hl]
  refine ⟨h.hosts, ?_, ?_, ?_, ?_⟩
  · rintro g (_ | ⟨_, hg⟩)
    · exact hf
    · exact h.frames g hg
  · rw [loops]; exact h.once
  · rw [loops]; exact h.joined
  · rw [loops]; exact h.pending

theorem pop {f : Frame} (h : w.Stands c i (f :: stack) r) (hl : f.isLoopOf c = false) :
    w.Stands c i stack r := by
  have loops : loopsIn c (f :: stack) = loopsIn c stack := by simp [loopsIn, hl]
  refine ⟨h.hosts, fun g hg => h.frames g (List.mem_cons_of_mem f hg), ?_, ?_, ?_⟩
  · rw [← loops]; exact h.once
  · rw [← loops]; exact h.joined
  · rw [← loops]; exact h.pending

end Stands

theorem Hosts.setCall {w : World} {c i : Nat} (h : w.Hosts c i) (call : Call)
    (request : call.request = (w.callAt c).request)
    (onSuccess : call.onSuccess = (w.callAt c).onSuccess)
    (onError : call.onError = (w.callAt c).onError)
    (classifier : call.classifier = (w.callAt c).classifier) : (w.setCall c call).Hosts c i := by
  have at_c : (w.setCall c call).callAt c = call := by
    rw [callAt_setCall w call h.inside, if_pos rfl]
  refine ⟨by rw [size_setCall]; exact h.inside, ?_, ?_, ?_, ?_, h.known, h.executor, h.script⟩
  · rw [at_c, request, h.request]
  · rw [at_c, onSuccess, h.onSuccess]
  · rw [at_c, onError, h.onError]
  · rw [classifierOf, at_c, classifier]
    exact h.classifier

theorem Hosts.requestOf {w : World} {c i : Nat} (h : w.Hosts c i) :
    w.requestOf c = (w.plain i).request := by
  rw [World.requestOf, h.request]
  rfl

theorem Hosts.setExecutor {w : World} {c i : Nat} (h : w.Hosts c i) {e : Executor}
    (alive : e.isAlive = true) (mode : e.mode = .queue) : (w.setExecutor e).Hosts c i :=
  ⟨h.inside, h.request, h.onSuccess, h.onError, h.classifier, h.known, ⟨e, rfl, alive, mode⟩,
    h.script⟩

theorem refusing_plain {w : World} {e : Executor} (h : w.executor = some e) (i : Nat) :
    (w.plain i).refusing = e.refusing := by
  simp [plain, h]

/-- What is queued makes no difference to the plain loop. -/
theorem plain_setExecutor {w : World} {e e' : Executor} (h : w.executor = some e)
    (refusing : e'.refusing = e.refusing) (i : Nat) : (w.setExecutor e').plain i = w.plain i := by
  have same : ((w.setExecutor e').plain i).refusing = (w.plain i).refusing := by
    rw [refusing_plain h, ← refusing, refusing_plain rfl]
  simp only [plain] at same ⊢
  rw [same]
  rfl

theorem Hosts.inRange {w : World} {c i : Nat} (h : w.Hosts c i) : i < w.requests.size := by
  obtain ⟨r, known⟩ := h.known
  exact (Array.getElem?_eq_some_iff.1 known).1

theorem Hosts.requestAt? {w : World} {c i : Nat} (h : w.Hosts c i) :
    w.requestAt? i = some (w.plain i).request := by
  obtain ⟨r, known⟩ := h.known
  simp [World.plain, World.requestAt?, known]

theorem Hosts.setRequest {w : World} {c i : Nat} (h : w.Hosts c i) (r : Request) :
    (w.setRequest c r).Hosts c i :=
  ⟨h.inside, h.request, h.onSuccess, h.onError, h.classifier,
    ⟨r, by simp [World.setRequest, h.request, h.inRange]⟩, h.executor, h.script⟩

theorem plain_setRequest {w : World} {c i : Nat} (h : w.Hosts c i) (r : Request) :
    (w.setRequest c r).plain i = { w.plain i with request := r } := by
  have found : (w.setRequest c r).requestAt? i = some r := by
    simp [requestAt?, World.setRequest, h.request, h.inRange]
  show { w.plain i with request := ((w.setRequest c r).requestAt? i).getD default } = _
  rw [found]
  rfl

theorem Hosts.setClassifier {w : World} {c i : Nat} (h : w.Hosts c i) :
    (w.setClassifier c .standard).Hosts c i := by
  refine ⟨h.inside, h.request, h.onSuccess, h.onError, ?_, h.known, h.executor, h.script⟩
  have before := h.classifier
  unfold classifierOf at before ⊢
  simp only [World.setClassifier, Array.getD_eq_getD_getElem?, Array.getElem?_setIfInBounds] at before ⊢
  split
  · split
    · rfl
    · rfl
  · exact before

theorem startOf_resolve (w : World) (a b : Nat) : (w.resolve a).startOf b = w.startOf b := by
  simp only [startOf, attemptAt_resolve]
  split <;> rfl

end World

end RequestFlow
