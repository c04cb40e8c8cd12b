import RequestFlow.Proofs.Requests
import RequestFlow.Proofs.Retrials

/-!
# Weights

A number that every step lowers, for a network with one call in it.  Whatever the call still has
before it weighs more than the instruction that takes it up: a retry that the policy has left weighs
an attempt from its beginning to the decision, an attempt without an outcome weighs what the outcome
sets off, a body in the queue weighs its copy.  The transport's script is free; an outcome in store
weighs its delivery, so outcomes for an attempt that was resolved before are paid for too.

    a step takes weight off, whatever the transport does                       (step_weight)
-/

namespace RequestFlow

/-! ## Weights -/

def Instr.weight : Instr → Nat
  | .perform _ | .settle _ _ (.ok (.retry _)) => 20
  | .dispatch _ => 19
  | .begin _ => 17
  | .schedule _ => 9
  | .send _ _ | .copy _ => 6
  | .unscheduled _ _ | .receive _ _ _ _ => 5
  | .fail _ _ => 4
  | .settle _ _ _ => 3
  | .complete _ _ => 2
  | .turn _ t => 1 + 3 * t.deliveries.length
  | .deliver _ _ | .react _ | .runQueue _ | .serve => 1

/-- Requests that the instruction may perform. -/
def Control.performs : Control → Nat
  | .run (.perform p) => p.performs
  | .run (.react r) => r.performs
  | _ => 0

def Control.weight : Control → Nat
  | .run i => i.weight
  | _ => 0

/-- What is done once the frame is reached, and a step for reaching it. -/
def Frame.weight : Frame → Nat
  | .turn _ t => 2 + 3 * t.deliveries.length
  | .submitting _ _ => 6
  | .queue _ | .worker => 2
  | _ => 1

/-- Outcomes that the script has in store. -/
def Transport.outcomes (t : Transport) : Nat := (t.script.map fun t => t.deliveries.length).sum

def stackWeight (stack : List Frame) : Nat := (stack.map Frame.weight).sum

/-- What the world still has before it for the call. -/
def World.weight (w : World) (c : Nat) : Nat :=
  17 * (w.requestOf c).policy.left + 9 * w.unresolved c + 18 * (w.pendingOf c - 1) +
    8 * w.queued.length + 3 * w.transport.outcomes

/-- The standard classifier judges the failures of the first call, and asks a policy that counts. -/
structure World.IsJudged (w : World) : Prop where
  classifier : w.classifierOf 0 = .standard
  stored : (w.requestAt? (w.callAt 0).request).isSome
  policy : ∃ b, (w.requestOf 0).policy = .backoff b
  bounded : (w.requestOf 0).policy.Bounded

def Machine.weight (c : Nat) (m : Machine) : Nat :=
  m.world.weight c + m.control.weight + stackWeight m.stack

/-! ## Worlds -/

theorem foldl_add_eq {α : Type} (f : α → Nat) (l : List α) (n : Nat) :
    l.foldl (fun n x => n + f x) n = n + (l.map f).sum := by
  induction l generalizing n with
  | nil => rfl
  | cons x l ih =>
    rw [List.foldl_cons, ih, List.map_cons, List.sum_cons]
    omega

@[simp]
theorem stackWeight_cons (f : Frame) (stack : List Frame) :
    stackWeight (f :: stack) = f.weight + stackWeight stack := by
  simp [stackWeight]

theorem stackWeight_holding (s : Option Stream) (stack : List Frame) :
    stackWeight ((s.map Frame.holding).toList ++ stack) ≤ 1 + stackWeight stack := by
  cases s <;> simp [Frame.weight]

namespace World

variable {w : World} {c : Nat}

theorem deliveriesLeft_eq (w : World) : w.deliveriesLeft = w.transport.outcomes := by
  rw [deliveriesLeft, foldl_add_eq, Nat.zero_add]
  rfl

/-- A turn brings no more outcomes than it takes from the script, but for the one outcome of a script
that has come to its end. -/
theorem outcomes_nextTurn (t : Transport) :
    t.nextTurn.2.outcomes + t.nextTurn.1.deliveries.length ≤ t.outcomes + 1 := by
  unfold Transport.nextTurn Transport.outcomes
  split
  · next none =>
    rw [none]
    exact Nat.le_refl _
  · next turn rest some =>
    simp only [some, List.map_cons, List.sum_cons]
    omega

theorem weight_transport (w : World) (t : Transport) (c : Nat) :
    { w with transport := t }.weight c + 3 * w.transport.outcomes = w.weight c + 3 * t.outcomes := by
  unfold weight
  show 17 * (w.requestOf c).policy.left + 9 * w.unresolved c + 18 * (w.pendingOf c - 1) +
    8 * w.queued.length + 3 * t.outcomes + _ = _
  omega

/-- The call's own count may change the weight. -/
theorem weight_setCall (call : Call) (hc : c < w.calls.size)
    (request : call.request = (w.callAt c).request) :
    (w.setCall c call).weight c + 18 * (w.pendingOf c - 1) =
      w.weight c + 18 * (call.pending - 1) := by
  have at' : (w.setCall c call).callAt c = call := by rw [callAt_setCall w call hc, if_pos rfl]
  have same : (w.setCall c call).requestOf c = w.requestOf c := by
    rw [requestOf, at', request]
    rfl
  have pending : (w.setCall c call).pendingOf c = call.pending := by rw [pendingOf, at']
  unfold weight
  rw [same, pending]
  show _ + 9 * w.unresolved c + _ + 8 * w.queued.length + 3 * w.transport.outcomes + _ = _
  omega

theorem weight_resolve {a : Nat} (ha : a < w.attempts.size)
    (hr : (w.attemptAt a).resolved = false) (hc : w.callOf a = c) :
    (w.resolve a).weight c + 9 = w.weight c := by
  have one := w.unresolved_resolve ha hr c
  rw [if_pos hc] at one
  unfold weight
  show 17 * (w.requestOf c).policy.left + _ + 18 * (w.pendingOf c - 1) + 8 * w.queued.length +
    3 * w.transport.outcomes + _ = _
  omega

theorem weight_openAttempt (w : World) (c : Nat) :
    (w.openAttempt c).2.weight c = w.weight c + 9 := by
  have one := w.unresolved_openAttempt c c
  rw [if_pos rfl] at one
  unfold weight
  show 17 * (w.requestOf c).policy.left + _ + 18 * (w.pendingOf c - 1) + 8 * w.queued.length +
    3 * w.transport.outcomes = _
  omega

theorem weight_enqueue {e : Executor} (he : w.executor = some e) (k : CopyTask) (c : Nat) :
    (w.setExecutor (e.enqueue k)).weight c = w.weight c + 8 := by
  have longer : (w.setExecutor (e.enqueue k)).queued.length = w.queued.length + 1 := by
    rw [queued_setExecutor, queued_of_executor he]
    exact List.length_append
  unfold weight
  rw [longer]
  show 17 * (w.requestOf c).policy.left + 9 * w.unresolved c + 18 * (w.pendingOf c - 1) + _ +
    3 * w.transport.outcomes = _
  omega

theorem weight_takeTask {w' : World} {k : CopyTask} (h : Machine.takeTask w = some (k, w'))
    (c : Nat) : w'.weight c + 8 = w.weight c := by
  unfold Machine.takeTask at h
  split at h
  · cases h
  · next e he =>
    split at h
    · cases h
    · next task rest hq =>
      simp only [Option.some.injEq, Prod.mk.injEq] at h
      obtain ⟨rfl, rfl⟩ := h
      have longer : w.queued.length = rest.length + 1 := by
        rw [queued_of_executor he, hq, List.length_cons]
      unfold weight
      rw [longer]
      show 17 * (w.requestOf c).policy.left + 9 * w.unresolved c + 18 * (w.pendingOf c - 1) +
        8 * rest.length + 3 * w.transport.outcomes + 8 = _
      omega

/-- A classified failure changes what is left to the policy. -/
theorem weight_setRequest {r : Request} (hr : (w.requestAt? (w.callAt c).request).isSome) :
    (w.setRequest c r).weight c + 17 * (w.requestOf c).policy.left =
      w.weight c + 17 * r.policy.left := by
  obtain ⟨q, stored⟩ := Option.isSome_iff_exists.1 hr
  have inside := inside_of_requestAt? stored
  have request : (w.setRequest c r).requestOf c = r := by
    show ((w.setRequest c r).requestAt? (w.callAt c).request).getD default = r
    simp [requestAt?, World.setRequest, inside]
  unfold weight
  rw [request]
  show _ + 9 * w.unresolved c + 18 * (w.pendingOf c - 1) + 8 * w.queued.length +
    3 * w.transport.outcomes + _ = _
  omega

end World

/-- A classified failure pays for the retry that it is granted, and costs nothing otherwise. -/
theorem classify_left {q : Request} {x : FailureContext} {b : Backoff} (hb : q.policy = .backoff b)
    (bounded : q.policy.Bounded) :
    (∃ reason, (classify q x).answer = .ok (.retry reason) ∧
        (classify q x).request.policy.left + 1 = q.policy.left) ∨
      (∀ reason, (classify q x).answer ≠ .ok (.retry reason)) ∧
        (classify q x).request.policy.left ≤ q.policy.left := by
  by_cases granted : ∃ reason, (classify q x).answer = .ok (.retry reason)
  · obtain ⟨reason, granted⟩ := granted
    exact .inl ⟨reason, granted, (classify_retry bounded granted).2⟩
  · refine .inr ⟨fun reason h => granted ⟨reason, h⟩, ?_⟩
    rcases classify_ended hb fun reason h => granted ⟨reason, h⟩ with
      ⟨-, same⟩ | ⟨reason, e, -, -, refused⟩
    · exact Nat.le_of_eq (by rw [same])
    · -- the count of a bounded policy does not wrap around
      rw [hb] at bounded
      obtain ⟨below, small⟩ := bounded
      rw [refused, hb]
      show (b.retry e).1.limit.toNat - (b.retry e).1.count.toNat ≤ b.limit.toNat - b.count.toNat
      rw [Backoff.limit_retry, Backoff.count_retry, UInt32.toNat_add]
      have : (1 : UInt32).toNat = 1 := rfl
      have : UInt32.size = 2 ^ 32 := rfl
      omega

/-! ## Instructions -/

namespace Machine

section

variable {past : List Machine} {w : World} {stack : List Frame}

theorem holdsCall_eq {c : Nat} (one : w.calls.size = 1) (h : w.HoldsCall c stack) : c = 0 := by
  have := h.1
  omega

theorem callOf_eq (hw : w.Valid) (one : w.calls.size = 1) {a : Nat} (ha : a < w.attempts.size) :
    w.callOf a = 0 := by
  have := hw.attempts a ha
  omega

theorem dispatch_weight (inside : 0 < w.calls.size) :
    (dispatch w 0 stack).weight 0 < weight 0 ⟨w, .run (.dispatch 0), stack⟩ := by
  have recount := World.weight_setCall (w.callAt 0).register.2 inside rfl
  have pending : (w.callAt 0).register.2.pending = w.pendingOf 0 + 1 := rfl
  rw [pending] at recount
  unfold dispatch
  dsimp only
  split
  · next first =>
    have none : w.pendingOf 0 = 0 := by simpa [Call.register, World.pendingOf] using first
    simp only [weight, doing, Control.weight, Instr.weight, stackWeight_cons, Frame.weight]
    omega
  · next more =>
    have some : w.pendingOf 0 ≠ 0 := by simpa [Call.register, World.pendingOf] using more
    simp only [weight, finished, Control.weight, Instr.weight]
    omega

theorem begin_weight : (begin w 0 stack).weight 0 < weight 0 ⟨w, .run (.begin 0), stack⟩ := by
  have opened := w.weight_openAttempt 0
  unfold begin
  dsimp only
  split
  · have new : (w.openAttempt 0).2.attemptAt w.attempts.size = ⟨0, w.clock, false⟩ := by
      rw [w.attemptAt_openAttempt, if_pos rfl]
    have resolved : ((w.openAttempt 0).2.resolve w.attempts.size).weight 0 + 9 =
        (w.openAttempt 0).2.weight 0 :=
      World.weight_resolve (by simp [World.openAttempt]) (by rw [new]) (by rw [World.callOf, new])
    simp only [weight, doing, Control.weight, Instr.weight]
    show ((w.openAttempt 0).2.resolve w.attempts.size).weight 0 + _ + _ < _
    omega
  · simp only [weight, doing, Control.weight, Instr.weight, stackWeight_cons, Frame.weight]
    omega

/-- A transport that takes its next turn. -/
theorem nextTurn_weight (w : World) (t : Transport) (a : Nat) (stack : List Frame) :
    weight 0 (doing { w with transport := t.nextTurn.2 } (.turn a t.nextTurn.1) (.nested :: stack)) +
      3 * w.transport.outcomes ≤ w.weight 0 + 3 * t.outcomes + 5 + stackWeight stack := by
  have kept := w.weight_transport t.nextTurn.2 0
  have taken := World.outcomes_nextTurn t
  simp only [weight, doing, Control.weight, Instr.weight, stackWeight_cons, Frame.weight]
  omega

theorem send_weight {a : Nat} {headers : List Header} :
    (send w a headers stack).weight 0 < weight 0 ⟨w, .run (.send a headers), stack⟩ := by
  have room : w.weight 0 + 3 * w.transport.outcomes + 5 + stackWeight stack <
      weight 0 ⟨w, .run (.send a headers), stack⟩ + 3 * w.transport.outcomes := by
    simp only [weight, Control.weight, Instr.weight]
    omega
  unfold send
  dsimp only
  split
  · show w.weight 0 + 0 + stackWeight stack < w.weight 0 + 6 + stackWeight stack
    omega
  · exact Nat.lt_of_add_lt_add_right
      (Nat.lt_of_le_of_lt (nextTurn_weight (w.note _) _ a stack) room)

theorem turn_weight {a : Nat} {t : Turn} :
    (takeTurn w a t stack).weight 0 < weight 0 ⟨w, .run (.turn a t), stack⟩ := by
  unfold takeTurn
  split
  · next none =>
    split
    · show w.weight 0 + 0 + stackWeight stack < w.weight 0 + (1 + _) + stackWeight stack
      omega
    · show w.weight 0 + 0 + stackWeight stack < w.weight 0 + (1 + _) + stackWeight stack
      omega
  · next d rest some =>
    show w.weight 0 + 1 + stackWeight (.turn a { t with deliveries := rest } :: stack) <
      w.weight 0 + (1 + 3 * t.deliveries.length) + stackWeight stack
    simp only [stackWeight_cons, Frame.weight, some, List.length_cons]
    omega

theorem openReply_weight (w : World) (a : Nat) (r : Reply Stream) (stack : List Frame) :
    (openReply w a r stack).weight 0 ≤ w.weight 0 + 9 + stackWeight stack := by
  unfold openReply
  split
  · have held := stackWeight_holding r.stream stack
    show w.weight 0 + 2 + stackWeight ((r.stream.map Frame.holding).toList ++ stack) ≤ _
    omega
  · split
    · show w.weight 0 + 5 + stackWeight stack ≤ _
      omega
    · show w.weight 0 + 5 + stackWeight stack ≤ _
      omega
    · exact Nat.le_refl _

theorem deliver_weight (hw : w.Valid) (one : w.calls.size = 1) {a : Nat} {o : Outcome Stream}
    (ha : a < w.attempts.size) :
    (deliver w a o stack).weight 0 < weight 0 ⟨w, .run (.deliver a o), stack⟩ := by
  unfold deliver
  dsimp only
  split
  · have same : (World.closeStream? (w.logFor (w.callOf a) .error
        (text "Transport resolved the same attempt twice, ignoring")) o.stream?).weight 0 =
        w.weight 0 := by
      cases o.stream? <;> rfl
    simp only [weight, finished, Control.weight, Instr.weight, same]
    omega
  · next fresh =>
    have resolved := World.weight_resolve ha (by simpa using fresh) (callOf_eq hw one ha)
    show _ < w.weight 0 + 1 + stackWeight stack
    cases o with
    | authFailure message =>
      show (w.resolve a).weight 0 + 2 + stackWeight stack < _
      omega
    | failure f =>
      show (w.resolve a).weight 0 + 4 + stackWeight stack < _
      omega
    | reply r =>
      have := openReply_weight (w.resolve a) a r stack
      dsimp only
      omega

theorem schedule_weight (hw : w.Valid) {k : CopyTask} :
    (schedule w k stack).weight 0 < weight 0 ⟨w, .run (.schedule k), stack⟩ := by
  have refused (w' : World) (same : w'.weight 0 = w.weight 0) (f : Fault) :
      weight 0 (doing w' (.unscheduled k f) (.holding k.stream :: stack)) <
        weight 0 ⟨w, .run (.schedule k), stack⟩ := by
    simp only [weight, doing, Control.weight, Instr.weight, stackWeight_cons, Frame.weight, same]
    omega
  unfold schedule
  split
  · exact refused w rfl _
  · next e he =>
    split
    · exact refused w rfl _
    · rw [hw.inOrder e he]
      dsimp only
      split
      · exact refused (w.note .submit) rfl _
      · have longer := World.weight_enqueue (w := w.note .submit) he k 0
        have noted : (w.note .submit).weight 0 = w.weight 0 := rfl
        simp only [weight, finished, Control.weight, Instr.weight, longer, noted]
        omega

theorem copy_weight {k : CopyTask} :
    (copy w k stack).weight 0 < weight 0 ⟨w, .run (.copy k), stack⟩ := by
  unfold copy
  dsimp only
  split
  · show w.weight 0 + 4 + stackWeight stack < w.weight 0 + 6 + stackWeight stack
    omega
  · show w.weight 0 + 5 + stackWeight stack < w.weight 0 + 6 + stackWeight stack
    omega

theorem receive_weight {a : Nat} {status : StatusCode} {headers : List Header} {body : Bytes} :
    (receive w a status headers body stack).weight 0 <
      weight 0 ⟨w, .run (.receive a status headers body), stack⟩ := by
  unfold receive
  dsimp only
  split
  · show w.weight 0 + 2 + stackWeight stack < w.weight 0 + 5 + stackWeight stack
    omega
  · show w.weight 0 + 4 + stackWeight stack < w.weight 0 + 5 + stackWeight stack
    omega

theorem fail_weight {x : FailureContext} {b : Backoff}
    (standard : w.classifierOf 0 = .standard)
    (stored : (w.requestAt? (w.callAt 0).request).isSome)
    (policy : (w.requestOf 0).policy = .backoff b) (bounded : (w.requestOf 0).policy.Bounded) :
    (fail w 0 x stack).weight 0 < weight 0 ⟨w, .run (.fail 0 x), stack⟩ := by
  have judged : (w.classifierOf 0).judge (w.requestOf 0) x =
      (classify (w.requestOf 0) x, .standard) := by rw [standard]; rfl
  have request := World.weight_setRequest (c := 0) (r := (classify (w.requestOf 0) x).request) stored
  have world : (fail w 0 x stack).weight 0 =
      (w.setRequest 0 (classify (w.requestOf 0) x).request).weight 0 +
        (Instr.settle 0 x.networkTime (classify (w.requestOf 0) x).answer).weight +
          stackWeight stack := by
    have same : (fail w 0 x stack).weight 0 =
        (w.setRequest 0 ((w.classifierOf 0).judge (w.requestOf 0) x).1.request).weight 0 +
          (Instr.settle 0 x.networkTime ((w.classifierOf 0).judge (w.requestOf 0) x).1.answer).weight +
            stackWeight stack := rfl
    rw [same, judged]
  rw [world]
  show _ < w.weight 0 + 4 + stackWeight stack
  rcases classify_left (x := x) policy bounded with ⟨reason, granted, left⟩ | ⟨refused, left⟩
  · have settle : (Instr.settle 0 x.networkTime (classify (w.requestOf 0) x).answer).weight = 20 := by
      rw [granted]
      rfl
    omega
  · have settle : (Instr.settle 0 x.networkTime (classify (w.requestOf 0) x).answer).weight = 3 := by
      rcases h : (classify (w.requestOf 0) x).answer with f | error | reason
      · rfl
      · rfl
      · exact absurd h (refused reason)
    omega

theorem settle_weight {c : Nat} {time : Int} {answer : Except Fault Decision} :
    (settle w c time answer stack).weight 0 < weight 0 ⟨w, .run (.settle c time answer), stack⟩ := by
  rcases answer with f | error | reason
  · show w.weight 0 + 2 + stackWeight stack < w.weight 0 + 3 + stackWeight stack
    omega
  · show w.weight 0 + 2 + stackWeight stack < w.weight 0 + 3 + stackWeight stack
    omega
  · show w.weight 0 + 19 + stackWeight stack < w.weight 0 + 20 + stackWeight stack
    omega

theorem complete_weight (inside : 0 < w.calls.size) {result : Except RequestError Response} :
    (complete w 0 result stack).weight 0 < weight 0 ⟨w, .run (.complete 0 result), stack⟩ := by
  have marked := World.weight_setCall { w.callAt 0 with completed := true } inside rfl
  have same : ({ w.callAt 0 with completed := true } : Call).pending = w.pendingOf 0 := rfl
  rw [same] at marked
  unfold complete
  dsimp only
  split
  · show w.weight 0 + 0 + stackWeight stack < w.weight 0 + 2 + stackWeight stack
    omega
  · show _ < w.weight 0 + 2 + stackWeight stack
    cases result with
    | ok response =>
      show (w.setCall 0 { w.callAt 0 with completed := true }).weight 0 + 1 + stackWeight stack < _
      omega
    | error error =>
      show (w.setCall 0 { w.callAt 0 with completed := true }).weight 0 + 1 + stackWeight stack < _
      omega

theorem react_weight {r : Reaction} (calm : r.performs = 0) :
    (react w r stack).weight 0 < weight 0 ⟨w, .run (.react r), stack⟩ := by
  cases r with
  | rest => exact Nat.add_lt_add_right (Nat.lt_succ_self _) _
  | raise message => exact Nat.add_lt_add_right (Nat.lt_succ_self _) _
  | perform request onSuccess onError fault =>
    simp only [Reaction.performs] at calm
    omega

/-- Whoever runs the tasks. -/
theorem taken_weight {w' : World} {k : CopyTask} (h : takeTask w = some (k, w')) {f : Frame}
    (hf : f.weight = 2) :
    weight 0 (doing w' (.copy k) (f :: stack)) < w.weight 0 + 1 + stackWeight stack := by
  have shorter := World.weight_takeTask h 0
  simp only [weight, doing, Control.weight, Instr.weight, stackWeight_cons, hf]
  omega

theorem runQueue_weight {n : Nat} :
    (runQueue w n stack).weight 0 < weight 0 ⟨w, .run (.runQueue n), stack⟩ := by
  unfold runQueue
  split
  · exact Nat.add_lt_add_right (Nat.lt_succ_self _) _
  · next taken => exact taken_weight taken rfl

theorem serve_weight : (serve w stack).weight 0 < weight 0 ⟨w, .run .serve, stack⟩ := by
  unfold serve
  split
  · exact Nat.add_lt_add_right (Nat.lt_succ_self _) _
  · next taken => exact taken_weight taken rfl

/-! ## Frames -/

theorem nextAttempt_weight (inside : 0 < w.calls.size) (busy : w.pendingOf 0 ≠ 0) :
    (nextAttempt w 0 stack).weight 0 < w.weight 0 + stackWeight (.attempts 0 :: stack) := by
  have recount := World.weight_setCall (w.callAt 0).retire.2 inside rfl
  have pending : (w.callAt 0).retire.2.pending = w.pendingOf 0 - 1 := rfl
  rw [pending] at recount
  unfold nextAttempt
  dsimp only
  split
  · next more =>
    have more : w.pendingOf 0 ≠ 1 := by simpa [Call.retire, World.pendingOf] using more
    simp only [weight, doing, Control.weight, Instr.weight, stackWeight_cons, Frame.weight]
    omega
  · simp only [weight, finished, Control.weight, stackWeight_cons, Frame.weight]
    omega

theorem resume_weight (one : w.calls.size = 1) {a : Answer} {f : Frame}
    (hm : Fits past ⟨w, .done a, f :: stack⟩) (hr : Ready ⟨w, .done a, f :: stack⟩) :
    (resume w f stack).weight 0 < w.weight 0 + stackWeight (f :: stack) := by
  rw [stackWeight_cons]
  cases f with
  | attempts c =>
    have inside : c < w.calls.size := hm.stack.1.1
    obtain rfl : c = 0 := by omega
    refine Nat.lt_of_lt_of_eq (nextAttempt_weight inside fun idle => ?_) (by rw [stackWeight_cons])
    have := hr.idle 0 idle
    simp [loops, Frame.isLoopOf] at this
  | turn a t =>
    show w.weight 0 + (1 + 3 * t.deliveries.length) + stackWeight stack <
      w.weight 0 + (2 + 3 * t.deliveries.length + stackWeight stack)
    omega
  | submitting k fails => exact hm.stack.1.elim
  | reacting fault =>
    cases fault <;>
    · show w.weight 0 + 0 + stackWeight stack < w.weight 0 + (1 + stackWeight stack)
      omega
  | sending _ | nested | holding _ | answering _ =>
    show w.weight 0 + 0 + stackWeight stack < w.weight 0 + (1 + stackWeight stack)
    omega
  | queue _ | worker =>
    show w.weight 0 + 1 + stackWeight stack < w.weight 0 + (2 + stackWeight stack)
    omega

theorem unwind_weight (hw : w.Valid) (one : w.calls.size = 1) {fault : Fault} {f : Frame}
    (hm : Fits past ⟨w, .raised fault, f :: stack⟩) :
    (unwind w fault f stack).weight 0 < w.weight 0 + stackWeight (f :: stack) := by
  rw [stackWeight_cons]
  cases f with
  | sending a =>
    have inside : a < w.attempts.size := hm.stack.1.1
    unfold unwind
    dsimp only
    split
    · show w.weight 0 + 0 + stackWeight stack < w.weight 0 + (1 + stackWeight stack)
      omega
    · next fresh =>
      have resolved := World.weight_resolve inside (by simpa using fresh) (callOf_eq hw one inside)
      show (w.resolve a).weight 0 + 4 + stackWeight stack < w.weight 0 + (1 + stackWeight stack)
      omega
  | submitting k fails => exact hm.stack.1.elim
  | worker =>
    show w.weight 0 + 1 + stackWeight stack < w.weight 0 + (2 + stackWeight stack)
    omega
  | turn a t =>
    show w.weight 0 + 0 + stackWeight stack <
      w.weight 0 + (2 + 3 * t.deliveries.length + stackWeight stack)
    omega
  | queue _ =>
    show w.weight 0 + 0 + stackWeight stack < w.weight 0 + (2 + stackWeight stack)
    omega
  | attempts _ | nested | holding _ | reacting _ | answering _ =>
    show w.weight 0 + 0 + stackWeight stack < w.weight 0 + (1 + stackWeight stack)
    omega

theorem exec_weight (hw : w.Valid) (one : w.calls.size = 1) {i : Instr}
    (hm : Fits past ⟨w, .run i, stack⟩) (calm : (Control.run i).performs = 0)
    (judged : ∀ c x, i = .fail c x → w.IsJudged) :
    (exec w i stack).weight 0 < weight 0 ⟨w, .run i, stack⟩ := by
  have fits := hm.control
  have inside : 0 < w.calls.size := by omega
  cases i with
  | perform p => exact absurd calm (by simp only [Control.performs, Performance.performs]; omega)
  | dispatch c =>
    obtain rfl := holdsCall_eq one fits
    exact dispatch_weight inside
  | begin c =>
    obtain ⟨rest, rfl⟩ := fits
    have : c < w.calls.size := hm.stack.1.1
    obtain rfl : c = 0 := by omega
    exact begin_weight
  | send a headers => exact send_weight
  | turn a t => exact turn_weight
  | deliver a o => exact deliver_weight hw one fits.1
  | schedule k => exact schedule_weight hw
  | unscheduled k f =>
    show w.weight 0 + 4 + stackWeight stack < w.weight 0 + 5 + stackWeight stack
    omega
  | copy k => exact copy_weight
  | receive a status headers body => exact receive_weight
  | fail c x =>
    obtain rfl := holdsCall_eq one fits
    obtain ⟨standard, stored, ⟨b, policy⟩, bounded⟩ := judged 0 x rfl
    exact fail_weight standard stored policy bounded
  | settle c time answer => exact settle_weight
  | complete c result =>
    obtain rfl := holdsCall_eq one fits
    exact complete_weight inside
  | react r => exact react_weight calm
  | runQueue n => exact runQueue_weight
  | serve => exact serve_weight

end

/-! ## Steps -/

/-- A step takes weight off. -/
theorem step_weight {past : List Machine} {m : Machine} (hw : m.world.Valid) (hm : m.Fits past)
    (hr : m.Ready) (one : m.world.calls.size = 1) (calm : m.control.performs = 0)
    (judged : ∀ c x, m.control = .run (.fail c x) → m.world.IsJudged) (busy : m.isIdle = false) :
    m.step.weight 0 < m.weight 0 := by
  obtain ⟨w, control, stack⟩ := m
  cases control with
  | run i => exact exec_weight hw one hm calm fun c x h => judged c x (congrArg _ h)
  | done a =>
    cases stack with
    | nil => cases busy
    | cons f stack => exact resume_weight one hm hr
  | raised fault =>
    cases stack with
    | nil => cases busy
    | cons f stack => exact unwind_weight hw one hm

/-- A machine whose steps take weight off comes to rest within its weight. -/
theorem run_of_weight {P : List Machine → Machine → Prop} (f : Machine → Nat)
    (step : ∀ past m, P past m → m.isIdle = false → P (m :: past) m.step ∧ f m.step < f m)
    {past : List Machine} (n : Nat) (m : Machine) (h : P past m) (enough : f m ≤ n) :
    P (Network.trail n m ++ past) (run n m) ∧ (run n m).isIdle = true := by
  induction n generalizing past m with
  | zero =>
    refine ⟨h, ?_⟩
    show m.isIdle = true
    by_contra busy
    have := (step past m h (by simpa using busy)).2
    omega
  | succ n ih =>
    unfold run Network.trail
    split
    · next idle => exact ⟨h, idle⟩
    · next busy =>
      obtain ⟨next, fewer⟩ := step past m h (by simpa using busy)
      have := ih m.step next (by omega)
      rwa [List.append_assoc, List.singleton_append]

end Machine

end RequestFlow
