import RequestFlow.Proofs.Threads

/-!
# What is under way for a call

Between the moment a call is performed and the moment its continuation is told a result, the call is
in exactly one place: an attempt waits for its outcome, an attempt is registered, a body waits to be
copied, or a thread has an outcome in hand.  This module counts these places.  Those that a step
leaves or enters are told apart by `Machine.act`.

    updates that touch no call, attempt, task or answer change no count      (Keeps)
    resolving an attempt takes one unresolved attempt from its call          (unresolved_resolve)
-/

namespace RequestFlow

/-! ## Counts of a world -/

/-- The continuation of the call was told a result. -/
def Event.answers (c : Nat) : Event → Bool
  | .success d _ _ | .failure d _ _ => d == c
  | _ => false

namespace World

/-- Attempts of the call that have no outcome yet. -/
def unresolved (w : World) (c : Nat) : Nat :=
  w.attempts.toList.countP fun t => t.call == c && !t.resolved

/-- Attempts of the call. -/
def attemptsOf (w : World) (c : Nat) : Nat := w.attempts.toList.countP fun t => t.call == c

/-- Bodies of the call that wait to be copied. -/
def queuedFor (w : World) (c : Nat) : Nat :=
  w.queued.countP fun k => w.callOf k.attempt == c

/-- What the continuation of the call was told, in order. -/
def told (w : World) (c : Nat) : List Event := w.trace.toList.filter (Event.answers c)

/-- How often the continuation of the call was told a result. -/
def answers (w : World) (c : Nat) : Nat := w.trace.toList.countP (Event.answers c)

/-- One for a call that was performed. -/
def performed (w : World) (c : Nat) : Nat := if c < w.calls.size then 1 else 0

def pendingOf (w : World) (c : Nat) : Nat := (w.callAt c).pending

/-- One for a call that is marked as complete. -/
def completedOf (w : World) (c : Nat) : Nat := if (w.callAt c).completed then 1 else 0

end World

/-! ## Counts of a thread -/

/-- The call whose outcome the instruction has in hand. -/
def Instr.hand? (w : World) : Instr → Option Nat
  | .dispatch c | .fail c _ | .settle c _ _ | .complete c _ => some c
  | .schedule k | .unscheduled k _ | .copy k => some (w.callOf k.attempt)
  | .receive a _ _ _ => some (w.callOf a)
  | _ => none

/-- Whether the frame is the loop that runs the attempts of the call. -/
def Frame.isLoopOf (c : Nat) : Frame → Bool
  | .attempts d => d == c
  | _ => false

/-- Whether the frame is the handing over of an attempt of the call. -/
def Frame.isSendOf (w : World) (c : Nat) : Frame → Bool
  | .sending a => w.callOf a == c
  | _ => false

/-- What a step can do about a call. -/
inductive Act
  /-- Registers an attempt. -/
  | register (call : Nat)
  | begin (call : Nat)
  /-- Enters the transport with an attempt. -/
  | send (call : Nat)
  /-- Decides to try again. -/
  | grant (call : Nat)
  /-- Takes a returned attempt off the count. -/
  | retire (call : Nat)
  /-- Leaves the loop of attempts by a fault. -/
  | leave (call : Nat)
  | other
  deriving DecidableEq, Repr

namespace Machine

/-- What the next step does. -/
def act (m : Machine) : Act :=
  match m.control, m.stack with
  | .run (.dispatch c), _ => .register c
  | .run (.begin c), _ => .begin c
  | .run (.send a _), _ => .send (m.world.callOf a)
  | .run (.settle c _ (.ok (.retry _))), _ => .grant c
  | .done _, .attempts c :: _ => .retire c
  | .raised _, .attempts c :: _ => .leave c
  | _, _ => .other

/-- One if that is what the next step does. -/
def does (m : Machine) (a : Act) : Nat := if m.act = a then 1 else 0

/-- The next step begins an attempt whose extra headers are no headers, and never sends it. -/
def misses (m : Machine) (c : Nat) : Nat :=
  match m.control with
  | .run (.begin d) =>
    match CacheEntry.conditionalHeaders (m.world.requestOf d).cache with
    | .error _ => if d = c then 1 else 0
    | .ok _ => 0
  | _ => 0

/-- One if the thread has the outcome of an attempt of the call in hand. -/
def inHand (m : Machine) (c : Nat) : Nat :=
  match m.control with
  | .run i => if i.hand? m.world = some c then 1 else 0
  | _ => 0

def loops (m : Machine) (c : Nat) : Nat := m.stack.countP (Frame.isLoopOf c)

/-- Attempts of the call that the thread has handed to the transport and waits for. -/
def atTransport (m : Machine) (c : Nat) : Nat := m.stack.countP (Frame.isSendOf m.world c)

/-- What is under way for the call in the world or in hand of this thread. -/
def live (m : Machine) (c : Nat) : Nat :=
  m.world.unresolved c + m.world.queuedFor c + m.world.answers c + m.inHand c

/-- One if the next step enters the loop of attempts. -/
def opens (m : Machine) (c : Nat) : Nat :=
  if m.act = .register c ∧ m.world.pendingOf c = 0 then 1 else 0

/-- One if the next step ends the loop of attempts. -/
def closes (m : Machine) (c : Nat) : Nat :=
  if m.act = .retire c ∧ m.world.pendingOf c = 1 then 1 else 0

end Machine

/-! ## Updates that change no count -/

/-- Nothing that is counted has changed. -/
structure World.Keeps (w w' : World) : Prop where
  calls : w'.calls = w.calls
  attempts : w'.attempts = w.attempts
  executor : w'.executor = w.executor
  answers : ∀ c, w'.answers c = w.answers c

namespace World

theorem answers_eq_length (w : World) (c : Nat) : w.answers c = (w.told c).length :=
  List.countP_eq_length_filter

theorem told_addLogs (w : World) (records : List LogRecord) (c : Nat) :
    (w.addLogs records).told c = w.told c := by
  simp only [told, addLogs, Trace.toList_addLogs, List.filter_append, List.append_right_eq_self]
  rw [List.filter_eq_nil_iff]
  intro e he
  obtain ⟨r, -, rfl⟩ := List.mem_map.1 he
  simp [Event.answers]

theorem answers_addLogs (w : World) (records : List LogRecord) (c : Nat) :
    (w.addLogs records).answers c = w.answers c := by
  rw [answers_eq_length, answers_eq_length, told_addLogs]

theorem told_note (w : World) (e : Event) (c : Nat) :
    (w.note e).told c = w.told c ++ if e.answers c then [e] else [] := by
  simp [told, note, List.filter_append, List.filter_cons]

theorem answers_note (w : World) (e : Event) (c : Nat) :
    (w.note e).answers c = w.answers c + if e.answers c then 1 else 0 := by
  rw [answers_eq_length, answers_eq_length, told_note, List.length_append]
  split <;> rfl

theorem told_closeStream (w : World) (s : Stream) (c : Nat) :
    (w.closeStream s).told c = w.told c := by
  simp only [told, closeStream, Stream.close, List.foldl_push_eq_append', Array.toList_append,
    List.filter_append, List.append_right_eq_self]
  rw [List.filter_eq_nil_iff]
  intro e he
  simp only [closeEvents, List.mem_cons, List.mem_map] at he
  rcases he with rfl | ⟨r, -, rfl⟩ <;> simp [Event.answers]

theorem answers_closeStream (w : World) (s : Stream) (c : Nat) :
    (w.closeStream s).answers c = w.answers c := by
  rw [answers_eq_length, answers_eq_length, told_closeStream]

namespace Keeps

theorem refl (w : World) : w.Keeps w := ⟨rfl, rfl, rfl, fun _ => rfl⟩

theorem trans {w w' w'' : World} (h : w.Keeps w') (h' : w'.Keeps w'') : w.Keeps w'' :=
  ⟨h'.calls.trans h.calls, h'.attempts.trans h.attempts, h'.executor.trans h.executor,
    fun c => (h'.answers c).trans (h.answers c)⟩

theorem addLogs (w : World) (records : List LogRecord) : w.Keeps (w.addLogs records) :=
  ⟨rfl, rfl, rfl, w.answers_addLogs records⟩

theorem note (w : World) {e : Event} (h : ∀ c, e.answers c = false) : w.Keeps (w.note e) :=
  ⟨rfl, rfl, rfl, fun c => by simp [answers_note, h c]⟩

theorem logFor (w : World) (c : Nat) (level : Level) (message : Bytes) :
    w.Keeps (w.logFor c level message) :=
  note w fun _ => rfl

theorem advance (w : World) (t : Int) : w.Keeps (w.advance t) := ⟨rfl, rfl, rfl, fun _ => rfl⟩

theorem closeStream (w : World) (s : Stream) : w.Keeps (w.closeStream s) :=
  ⟨rfl, rfl, rfl, w.answers_closeStream s⟩

theorem closeStream? (w : World) (s : Option Stream) : w.Keeps (w.closeStream? s) := by
  cases s with
  | none => exact refl w
  | some s => exact closeStream w s

theorem setRequest (w : World) (c : Nat) (r : Request) : w.Keeps (w.setRequest c r) :=
  ⟨rfl, rfl, rfl, fun _ => rfl⟩

theorem setClassifier (w : World) (c : Nat) (k : Classifier) : w.Keeps (w.setClassifier c k) :=
  ⟨rfl, rfl, rfl, fun _ => rfl⟩

theorem transport (w : World) (t : Transport) : w.Keeps { w with transport := t } :=
  ⟨rfl, rfl, rfl, fun _ => rfl⟩

variable {w w' : World} (h : w.Keeps w')
include h

theorem callAt (c : Nat) : w'.callAt c = w.callAt c := by simp only [World.callAt, h.calls]

theorem attemptAt (a : Nat) : w'.attemptAt a = w.attemptAt a := by
  simp only [World.attemptAt, h.attempts]

theorem callOf (a : Nat) : w'.callOf a = w.callOf a := by simp only [World.callOf, h.attemptAt]

theorem queued : w'.queued = w.queued := by simp only [World.queued, h.executor]

theorem unresolved (c : Nat) : w'.unresolved c = w.unresolved c := by
  simp only [World.unresolved, h.attempts]

theorem attemptsOf (c : Nat) : w'.attemptsOf c = w.attemptsOf c := by
  simp only [World.attemptsOf, h.attempts]

theorem queuedFor (c : Nat) : w'.queuedFor c = w.queuedFor c := by
  simp only [World.queuedFor, h.queued, h.callOf]

theorem performed (c : Nat) : w'.performed c = w.performed c := by
  simp only [World.performed, h.calls]

theorem pendingOf (c : Nat) : w'.pendingOf c = w.pendingOf c := by
  simp only [World.pendingOf, h.callAt]

theorem completedOf (c : Nat) : w'.completedOf c = w.completedOf c := by
  simp only [World.completedOf, h.callAt]

end Keeps

/-! ## Calls -/

variable (w : World)

theorem callAt_setCall {c : Nat} (call : Call) (hc : c < w.calls.size) (d : Nat) :
    (w.setCall c call).callAt d = if c = d then call else w.callAt d := by
  simp only [callAt, setCall, Array.getD_eq_getD_getElem?, Array.getElem?_setIfInBounds]
  by_cases h : c = d
  · subst h
    simp [hc]
  · simp [h]

theorem size_setCall (c : Nat) (call : Call) : (w.setCall c call).calls.size = w.calls.size :=
  Array.size_setIfInBounds

theorem callAt_openCall (p : Performance) (d : Nat) :
    (w.openCall p).2.callAt d =
      if d = w.calls.size then ⟨p.request, p.onSuccess, p.onError, w.classifier, 0, false⟩
      else w.callAt d := by
  simp only [callAt, openCall, Array.getD_eq_getD_getElem?, Array.getElem?_push]
  split <;> rfl

theorem callAt_of_le {c : Nat} (hc : w.calls.size ≤ c) : w.callAt c = default := by
  simp [callAt, hc]

theorem performed_le_one (c : Nat) : w.performed c ≤ 1 := by
  unfold performed
  split <;> omega

theorem completedOf_eq_zero_iff {c : Nat} :
    w.completedOf c = 0 ↔ (w.callAt c).completed = false := by
  unfold completedOf
  cases (w.callAt c).completed <;> simp

theorem performed_openCall (p : Performance) (c : Nat) :
    (w.openCall p).2.performed c = w.performed c + if w.calls.size = c then 1 else 0 := by
  simp only [performed, openCall, Array.size_push]
  split <;> split <;> split <;> omega

/-! ## Attempts -/

theorem attemptAt_resolve (a b : Nat) :
    (w.resolve a).attemptAt b =
      if a = b ∧ b < w.attempts.size then { w.attemptAt b with resolved := true }
      else w.attemptAt b := by
  simp only [attemptAt, resolve, Array.getD_eq_getD_getElem?, Array.getElem?_modify]
  by_cases h : a = b
  · subst h
    by_cases ha : a < w.attempts.size
    · simp [ha]
    · simp [ha]
  · simp [h]

theorem callOf_resolve (a b : Nat) : (w.resolve a).callOf b = w.callOf b := by
  simp only [callOf, attemptAt_resolve]
  split <;> rfl

theorem attemptAt_openAttempt (c b : Nat) :
    (w.openAttempt c).2.attemptAt b =
      if b = w.attempts.size then ⟨c, w.clock, false⟩ else w.attemptAt b := by
  simp only [attemptAt, openAttempt, Array.getD_eq_getD_getElem?, Array.getElem?_push]
  split <;> rfl

theorem callOf_openAttempt {b : Nat} (c : Nat) (hb : b < w.attempts.size) :
    (w.openAttempt c).2.callOf b = w.callOf b := by
  simp only [callOf, attemptAt_openAttempt]
  rw [if_neg (by omega)]

theorem unresolved_openAttempt (c d : Nat) :
    (w.openAttempt c).2.unresolved d = w.unresolved d + if c = d then 1 else 0 := by
  simp [unresolved, openAttempt, List.countP_append, List.countP_cons]

theorem attemptsOf_openAttempt (c d : Nat) :
    (w.openAttempt c).2.attemptsOf d = w.attemptsOf d + if c = d then 1 else 0 := by
  simp [attemptsOf, openAttempt, List.countP_append, List.countP_cons]

theorem countP_modify {α : Type} (p : α → Bool) (f : α → α) (l : List α) (i : Nat)
    (h : i < l.length) :
    (l.modify i f).countP p + (if p l[i] then 1 else 0) =
      l.countP p + if p (f l[i]) then 1 else 0 := by
  induction l generalizing i with
  | nil => simp at h
  | cons x l ih =>
    cases i with
    | zero => simp only [List.modify_zero_cons, List.countP_cons, List.getElem_cons_zero]; omega
    | succ i =>
      have := ih i (by simpa using h)
      simp only [List.modify_succ_cons, List.countP_cons, List.getElem_cons_succ]
      omega

theorem attemptsOf_resolve (a c : Nat) : (w.resolve a).attemptsOf c = w.attemptsOf c := by
  simp only [attemptsOf, resolve, Array.toList_modify]
  by_cases ha : a < w.attempts.toList.length
  · have key := countP_modify (fun t : Attempt => t.call == c)
      (fun t => { t with resolved := true }) w.attempts.toList a ha
    simpa using key
  · rw [List.modify_eq_self (by omega)]

/-- Resolving an attempt takes one unresolved attempt from its call. -/
theorem unresolved_resolve {a : Nat} (ha : a < w.attempts.size)
    (hr : (w.attemptAt a).resolved = false) (c : Nat) :
    (w.resolve a).unresolved c + (if w.callOf a = c then 1 else 0) = w.unresolved c := by
  have hl : a < w.attempts.toList.length := by rwa [Array.length_toList]
  have key := countP_modify (fun t : Attempt => t.call == c && !t.resolved)
    (fun t => { t with resolved := true }) w.attempts.toList a hl
  have e : w.attemptAt a = w.attempts.toList[a] := by
    simp [attemptAt, ha]
  rw [← e] at key
  simp only [unresolved, resolve, Array.toList_modify, callOf]
  by_cases h : (w.attemptAt a).call = c
  · simpa [h, hr] using key
  · simpa [h, hr] using key

/-! ## Tasks -/

theorem queued_setExecutor (e : Executor) : (w.setExecutor e).queued = e.queue := rfl

theorem queued_of_executor {w : World} {e : Executor} (h : w.executor = some e) :
    w.queued = e.queue := by
  simp [queued, h]

theorem queuedFor_enqueue {e : Executor} (h : w.executor = some e) (k : CopyTask) (c : Nat) :
    (w.setExecutor (e.enqueue k)).queuedFor c =
      w.queuedFor c + if w.callOf k.attempt = c then 1 else 0 := by
  show (e.queue ++ [k]).countP (fun k => w.callOf k.attempt == c) = _
  simp [queuedFor, queued_of_executor h, List.countP_append, List.countP_cons]

/-- Taking a task makes the queue shorter by that task. -/
theorem takeTask_eq_some {w w' : World} {k : CopyTask} (h : Machine.takeTask w = some (k, w')) :
    w.queued = k :: w'.queued ∧ w'.calls = w.calls ∧ w'.attempts = w.attempts ∧
      w'.trace = w.trace ∧ (w.InOrder → w'.InOrder) := by
  unfold Machine.takeTask at h
  split at h
  · cases h
  · next e he =>
    split at h
    · cases h
    · next task rest hq =>
      simp only [Option.some.injEq, Prod.mk.injEq] at h
      obtain ⟨rfl, rfl⟩ := h
      refine ⟨by rw [queued_of_executor he, hq, queued_setExecutor], rfl, rfl, rfl, ?_⟩
      intro hi f hf
      cases hf
      exact hi e he

end World

end RequestFlow
