import RequestFlow.Proofs.Ledger
import RequestFlow.Proofs.Weights

/-!
# One call by itself

A network in which one request was performed, by a thread that other threads leave alone.  Nothing
else is performed, since the continuation performs nothing, so the call stays the only one.  As its
policy has a bound and the standard classifier asks it, every thread comes to rest, whatever the
transport does.

    a step of the thread leaves the call by itself, and takes weight off       (Alone.step)
    so the thread comes to rest                                                (Alone.run)
-/

namespace RequestFlow

/-- The first call is the only one, for this request, and it is answered as it would be by itself. -/
structure World.Solo (w : World) (i : Nat) : Prop where
  size : w.calls.size = 1
  request : (w.callAt 0).request = i
  onSuccess : (w.callAt 0).onSuccess.performs = 0
  onError : (w.callAt 0).onError.performs = 0
  classifier : w.classifierOf 0 = .standard
  synchronous : w.transport.deferred = false

/-- The machine went on from a stack without performing anything. -/
structure Machine.Continues (w : World) (stack : List Frame) (m : Machine) : Prop where
  size : m.world.calls.size = w.calls.size
  performs : m.control.performs = 0
  stack : stack <:+ m.stack

/-- The thread of the machine works for the only call, and all others rest. -/
structure Network.Alone (i : Nat) (r : Request) (rest : List Thread) (past : List Machine)
    (m : Machine) : Prop where
  recorded : Recorded i r ⟨m.world, m.thread :: rest, past⟩
  solo : m.world.Solo i
  performs : m.control.performs = 0
  idle : ∀ t ∈ rest, (t.on m.world).isIdle = true

/-! ## Steps -/

namespace Machine

variable {w : World} {stack : List Frame}

theorem openReply_continues (w : World) (stack : List Frame) (a : Nat) (r : Reply Stream) :
    Continues w stack (openReply w a r stack) := by
  unfold openReply
  split
  · exact ⟨rfl, rfl, List.suffix_append _ _⟩
  · split <;> exact ⟨rfl, rfl, List.suffix_rfl⟩

theorem schedule_continues (k : CopyTask) : Continues w stack (schedule w k stack) := by
  unfold schedule
  split
  · exact ⟨rfl, rfl, List.suffix_cons _ _⟩
  · dsimp only
    split
    · exact ⟨rfl, rfl, List.suffix_cons _ _⟩
    · split
      · exact ⟨rfl, rfl, List.suffix_cons _ _⟩
      · exact ⟨rfl, rfl, List.suffix_cons _ _⟩
      · split <;> exact ⟨rfl, rfl, by simp [doing, finished]⟩
      · split <;> exact ⟨rfl, rfl, by simp [doing]⟩

theorem takeTask_size {w' : World} {k : CopyTask} (h : takeTask w = some (k, w')) :
    w'.calls.size = w.calls.size := by
  rw [(World.takeTask_eq_some h).2.1]

/-- An instruction that performs nothing leads to none that does, if no continuation does. -/
theorem exec_continues {i : Instr} (calm : (Control.run i).performs = 0)
    (reactions : ∀ c result, i = .complete c result →
      (w.callAt c).onSuccess.performs = 0 ∧ (w.callAt c).onError.performs = 0) :
    Continues w stack (exec w i stack) := by
  cases i with
  | perform p => exact absurd calm (by simp only [Control.performs, Performance.performs]; omega)
  | dispatch c =>
    simp only [exec, dispatch]
    split
    · exact ⟨w.size_setCall c _, rfl, List.suffix_cons _ _⟩
    · exact ⟨w.size_setCall c _, rfl, List.suffix_rfl⟩
  | begin c =>
    simp only [exec, begin]
    split
    · exact ⟨rfl, rfl, List.suffix_rfl⟩
    · exact ⟨rfl, rfl, List.suffix_cons _ _⟩
  | send a headers =>
    simp only [exec, send]
    split
    · exact ⟨rfl, rfl, List.suffix_rfl⟩
    · exact ⟨rfl, rfl, List.suffix_cons _ _⟩
  | turn a t =>
    simp only [exec, takeTurn]
    split
    · split <;> exact ⟨rfl, rfl, List.suffix_rfl⟩
    · exact ⟨rfl, rfl, List.suffix_cons _ _⟩
  | deliver a o =>
    simp only [exec, deliver]
    split
    · refine ⟨?_, rfl, List.suffix_rfl⟩
      cases o.stream? <;> rfl
    · cases o with
      | authFailure message => exact ⟨rfl, rfl, List.suffix_rfl⟩
      | failure f => exact ⟨rfl, rfl, List.suffix_rfl⟩
      | reply r =>
        obtain ⟨size, performs, suffix⟩ := openReply_continues (w.resolve a) stack a r
        exact ⟨size, performs, suffix⟩
  | schedule k => exact schedule_continues k
  | unscheduled k f => exact ⟨rfl, rfl, List.suffix_rfl⟩
  | copy k =>
    simp only [exec, copy]
    split <;> exact ⟨rfl, rfl, List.suffix_rfl⟩
  | receive a status headers body =>
    simp only [exec, receive]
    split <;> exact ⟨rfl, rfl, List.suffix_rfl⟩
  | fail c x => exact ⟨rfl, rfl, List.suffix_rfl⟩
  | settle c time answer => rcases answer with f | error | reason <;> exact ⟨rfl, rfl, List.suffix_rfl⟩
  | complete c result =>
    obtain ⟨onSuccess, onError⟩ := reactions c result rfl
    simp only [exec, complete]
    split
    · exact ⟨rfl, rfl, List.suffix_rfl⟩
    · split
      · exact ⟨w.size_setCall c _, onSuccess, List.suffix_rfl⟩
      · exact ⟨w.size_setCall c _, onError, List.suffix_rfl⟩
  | react r =>
    cases r with
    | rest => exact ⟨rfl, rfl, List.suffix_rfl⟩
    | raise message => exact ⟨rfl, rfl, List.suffix_rfl⟩
    | perform request onSuccess onError fault =>
      exact absurd calm (by simp only [Control.performs, Reaction.performs]; omega)
  | runQueue n =>
    simp only [exec, runQueue]
    split
    · exact ⟨rfl, rfl, List.suffix_rfl⟩
    · next taken => exact ⟨takeTask_size taken, rfl, List.suffix_cons _ _⟩
  | serve =>
    simp only [exec, serve]
    split
    · exact ⟨rfl, rfl, List.suffix_rfl⟩
    · next taken => exact ⟨takeTask_size taken, rfl, List.suffix_cons _ _⟩

theorem resume_continues (f : Frame) : Continues w stack (resume w f stack) := by
  cases f with
  | attempts c =>
    simp only [resume, nextAttempt]
    split
    · exact ⟨w.size_setCall c _, rfl, List.suffix_cons _ _⟩
    · exact ⟨w.size_setCall c _, rfl, List.suffix_rfl⟩
  | submitting k fails => cases fails <;> exact ⟨rfl, rfl, List.suffix_rfl⟩
  | reacting fault => cases fault <;> exact ⟨rfl, rfl, List.suffix_rfl⟩
  | sending _ | nested | turn _ _ | holding _ | answering _ | queue _ | worker =>
    exact ⟨rfl, rfl, List.suffix_rfl⟩

theorem unwind_continues (fault : Fault) (f : Frame) : Continues w stack (unwind w fault f stack) := by
  cases f with
  | sending a =>
    simp only [unwind]
    split <;> exact ⟨rfl, rfl, List.suffix_rfl⟩
  | holding _ | submitting _ _ | worker | attempts _ | nested | turn _ _ | reacting _ | answering _
  | queue _ => exact ⟨rfl, rfl, List.suffix_rfl⟩

variable {m : Machine} {i : Nat}

/-- What a machine steps to, with what is left of its stack. -/
theorem step_continues (solo : m.world.Solo i) {past : List Machine} (hm : m.Fits past)
    (calm : m.control.performs = 0) (busy : m.isIdle = false) :
    (∃ x, m.control = .run x ∧ Continues m.world m.stack m.step) ∨
      ∃ f rest, m.stack = f :: rest ∧ (∀ x, m.control ≠ .run x) ∧ Continues m.world rest m.step := by
  obtain ⟨w, control, stack⟩ := m
  cases control with
  | run x =>
    refine .inl ⟨x, rfl, exec_continues calm ?_⟩
    rintro c result rfl
    obtain rfl := holdsCall_eq solo.size hm.control
    exact ⟨solo.onSuccess, solo.onError⟩
  | done a =>
    cases stack with
    | nil => cases busy
    | cons f rest => exact .inr ⟨f, rest, rfl, by simp, resume_continues f⟩
  | raised fault =>
    cases stack with
    | nil => cases busy
    | cons f rest => exact .inr ⟨f, rest, rfl, by simp, unwind_continues fault f⟩

/-- The judge of the call stays the standard classifier. -/
theorem classifierOf_step (one : m.world.calls.size = 1) (standard : m.world.classifierOf 0 = .standard)
    {past : List Machine} (hm : m.Fits past) : m.step.world.classifierOf 0 = .standard := by
  have plan := (Moves.step m).leaves.plan 0 (by rw [one]; exact Nat.one_pos)
  obtain ⟨-, -, -, place⟩ := Call.eq_of_plan plan
  have same (h : m.step.world.classifiers = m.world.classifiers) :
      m.step.world.classifierOf 0 = .standard := by
    rw [World.classifierOf, place, h]
    exact standard
  by_cases fails : ∃ c x, m.control = .run (.fail c x)
  · obtain ⟨c, x, hc⟩ := fails
    obtain ⟨w, control, stack⟩ := m
    obtain rfl : control = .run (.fail c x) := hc
    obtain rfl := holdsCall_eq one hm.control
    exact fail_classifierOf standard x stack
  · by_cases sends : ∃ a headers, m.control = .run (.send a headers)
    · obtain ⟨a, headers, hc⟩ := sends
      obtain ⟨w, control, stack⟩ := m
      obtain rfl : control = .run (.send a headers) := hc
      exact same (send_world w a headers stack).2.2.1
    · exact same ((Moves.step m).spared (fun a headers hc => sends ⟨a, headers, hc⟩)
        fun c x hc => fails ⟨c, x, hc⟩).classifiers

end Machine

theorem World.Solo.isOnly {w : World} {i : Nat} (h : w.Solo i) : w.IsOnly i 0 := by
  intro d hd
  have only : d = 0 := by
    have := h.size
    omega
  rw [only]
  exact ⟨fun _ => rfl, fun _ => h.request⟩

theorem World.Solo.step {m : Machine} {i : Nat} (h : m.world.Solo i) {past : List Machine}
    (hm : m.Fits past) (size : m.step.world.calls.size = m.world.calls.size) :
    m.step.world.Solo i := by
  have leaves := (Machine.Moves.step m).leaves
  obtain ⟨request, onSuccess, onError, -⟩ :=
    Call.eq_of_plan (leaves.plan 0 (by rw [h.size]; exact Nat.one_pos))
  exact ⟨size.trans h.size, request.trans h.request, by rw [onSuccess]; exact h.onSuccess,
    by rw [onError]; exact h.onError, Machine.classifierOf_step h.size h.classifier hm,
    leaves.deferred.trans h.synchronous⟩

/-! ## Runs -/

namespace Network

variable {i : Nat} {r : Request} {rest : List Thread} {past : List Machine} {m : Machine}

namespace Alone

variable (h : Alone i r rest past m)
include h

theorem sane : Sane ⟨m.world, m.thread :: rest, past⟩ := h.recorded.reachable.sane

theorem fits : m.Fits past := h.sane.fits m.thread List.mem_cons_self

theorem ready : m.Ready := h.sane.ready (t := m.thread) List.mem_cons_self

/-- A failure is judged when the policy has not refused a retry yet. -/
theorem judged {b : Backoff} (policy : r.policy = .backoff b) (bounded : r.policy.Bounded) {c : Nat}
    {x : FailureContext} (hc : m.control = .run (.fail c x)) : m.world.IsJudged := by
  have fits := h.fits.control
  rw [hc] at fits
  obtain rfl := Machine.holdsCall_eq h.solo.size fits
  obtain ⟨l, q, g, booked⟩ := h.recorded.booked h.solo.isOnly
  obtain rfl := booked.waiting (u := []) h.sane hc
  have request : m.world.requestOf 0 = q :=
    h.solo.isOnly.requestOf (by rw [h.solo.size]; exact Nat.one_pos) booked.stored
  obtain ⟨b', policy', -⟩ := booked.retried.backoff policy
  refine ⟨h.solo.classifier, ?_, ⟨b', by rw [request, policy']⟩, ?_⟩
  · rw [h.solo.request, booked.stored]
    rfl
  · rw [request]
    exact (booked.retried.left bounded).1

/-- A step leaves the call by itself, and takes weight off. -/
theorem step {b : Backoff} (policy : r.policy = .backoff b) (bounded : r.policy.Bounded)
    (busy : m.isIdle = false) :
    Alone i r rest (m :: past) m.step ∧ m.step.weight 0 < m.weight 0 := by
  have continues : m.step.world.calls.size = m.world.calls.size ∧ m.step.control.performs = 0 := by
    rcases Machine.step_continues h.solo h.fits h.performs busy with ⟨_, -, on⟩ | ⟨_, _, -, -, on⟩
    · exact ⟨on.size, on.performs⟩
    · exact ⟨on.size, on.performs⟩
  have judges : m.Judges i m.step := by
    intro c x hc _
    have fits := h.fits.control
    rw [hc] at fits
    obtain rfl := Machine.holdsCall_eq h.solo.size fits
    exact ⟨h.solo.classifier, rfl⟩
  refine ⟨⟨?_, h.solo.step h.fits continues.1, continues.2, h.idle⟩, ?_⟩
  · exact Recorded.move (l := []) (t := m.thread) h.recorded (.step m) judges
  · exact Machine.step_weight h.sane.valid h.fits h.ready h.solo.size h.performs
      (fun c x hc => h.judged policy bounded hc) busy

/-- The thread comes to rest, and what its steps keep holds then. -/
theorem run {b : Backoff} (policy : r.policy = .backoff b) (bounded : r.policy.Bounded)
    {P : List Machine → Machine → Prop} (hp : P past m)
    (kept : ∀ past m, Alone i r rest past m → m.isIdle = false → P past m → P (m :: past) m.step)
    {n : Nat} (enough : m.weight 0 ≤ n) :
    Alone i r rest (trail n m ++ past) (Machine.run n m) ∧
      P (trail n m ++ past) (Machine.run n m) ∧ (Machine.run n m).isIdle = true := by
  have ran := Machine.run_of_weight (P := fun past m => Alone i r rest past m ∧ P past m)
    (Machine.weight 0) (fun past m both busy =>
      have stepped := both.1.step policy bounded busy
      ⟨⟨stepped.1, kept past m both.1 busy both.2⟩, stepped.2⟩) n m ⟨h, hp⟩ enough
  exact ⟨ran.1.1, ran.1.2, ran.2⟩

/-- Once the thread rests, another one may run the tasks. -/
theorem next (idle : m.isIdle = true) {x : Instr} (hx : x = .serve ∨ x = .runQueue 0) :
    Alone i r (m.thread :: rest) past (Machine.doing m.world x []) := by
  have arrival : Arrival m.world ⟨.run x, []⟩ := by
    rcases hx with rfl | rfl
    · exact .serve
    · exact .runQueue
  refine ⟨h.recorded.arrive _ arrival ?_, h.solo, ?_, ?_⟩
  · intro a ha
    rcases hx with rfl | rfl <;> cases ha
  · rcases hx with rfl | rfl <;> rfl
  · intro t ht
    rcases List.mem_cons.1 ht with rfl | ht
    · exact idle
    · exact h.idle t ht

end Alone

end Network

end RequestFlow
