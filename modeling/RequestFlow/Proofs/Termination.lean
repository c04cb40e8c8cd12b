import RequestFlow.Proofs.Attending
import RequestFlow.Proofs.Markers
import RequestFlow.Proofs.Refinement

/-!
# Bounded retries

A request with a backoff policy is performed, and the tasks are run.  Both come to rest within the
steps that a session allows them, whatever the transport does, and the request is tried no more than
once for each retry of its policy and once before.  If the transport takes decisive turns, the
continuation is told one result.

    a lone thread fits the budget of a session                                 (Alone.weight_le)
    performing a request and running the tasks ends within the limit           (Offers.ends_within)
-/

namespace RequestFlow

namespace World

/-- Nothing was performed yet, and the request can be: it is there, its failures are judged by the
standard classifier, and the network has an executor and a synchronous transport. -/
structure Offers (w : World) (i : Nat) (r : Request) : Prop where
  fresh : w.Fresh
  present : w.present = true
  hasExecutor : w.hasExecutor = true
  request : w.requestAt? i = some r
  classifier : w.classifiers.getD w.classifier .standard = .standard
  synchronous : w.transport.deferred = false

/-- The worker, if there is one, comes to rest. -/
def WorkerSettles (w : World) : Prop :=
  ∀ e, w.executor = some e → e.hasWorker = true →
    (Machine.run (w.budget 0) (Machine.doing w .serve [])).isIdle = true

/-- The machine that carries out the operation comes to rest, and so does the worker after it. -/
def Settles (w : World) (op : Operation) : Prop :=
  (Machine.run (w.budget op.performs) (w.begin op)).isIdle = true ∧
    (Machine.run (w.budget op.performs) (w.begin op)).world.WorkerSettles

/-- The tasks were run, unless the continuation was told a result while they were. -/
def Emptied (w : World) : Prop := w.queued = [] ∨ 0 < w.answers 0

/-- The request is performed, and the tasks are run. -/
def carryOut (w : World) (p : Performance) : World := w.applyAll [.perform p, .runTasks]

/-- The machines that the steps of this start from. -/
def carryOutTrail (w : World) (p : Performance) : List Machine :=
  w.trailAll [.perform p, .runTasks]

/-- Performing the request and running the tasks ends, after at most so many attempts. -/
structure EndsWithin (w : World) (p : Performance) (limit : Nat) : Prop where
  performs : w.Settles (.perform p)
  drains : (w.apply (.perform p)).2.Settles .runTasks
  attempts : (w.carryOut p).attemptsOf 0 ≤ limit
  sent : ((w.carryOut p).timeouts 0).length ≤ (w.carryOut p).attemptsOf 0
  once : ∀ a, ((w.carryOutTrail p).map fun m => m.hands a).sum ≤ 1
  only : (w.carryOut p).calls.size = 1
  told : (w.carryOut p).answers 0 ≤ 1
  answered : (∀ t ∈ w.transport.script, t.Decisive) →
    (w.carryOut p).answers 0 = 1 ∧ (w.carryOut p).queued = []
  exhausted : ∀ b, ((w.carryOut p).requestOf 0).policy = .backoff b → b.hasAttemptLeft = false →
    (w.carryOut p).attemptsOf 0 = limit

end World

theorem Stage.attempts_le_one (g : Stage) : g.attempts ≤ 1 := by
  cases g with
  | ready => exact Nat.zero_le 1
  | waiting | failed x => exact Nat.le_refl 1

namespace Network

/-- All threads rest, and the call is by itself in the world; if the transport is decisive, every
attempt was attended to. -/
structure Resting (i : Nat) (r : Request) (decisive : Prop) (rest : List Thread)
    (past : List Machine) (m : Machine) : Prop where
  alone : Alone i r rest past m
  idle : m.isIdle = true
  faithful : decisive → Faithful past m

/-! ## Budgets -/

variable {i : Nat} {r : Request} {rest : List Thread} {past : List Machine} {m : Machine}

theorem requests_of_requestAt? {w : World} {p : Request} (h : w.requestAt? i = some p) :
    w.requests[i]? = some (some p) := by
  unfold World.requestAt? at h
  cases stored : w.requests[i]? with
  | none => simp [stored] at h
  | some q => simpa [stored] using h

/-- A session allows more steps than the call can still take. -/
theorem Alone.weight_le (h : Alone i r rest past m) :
    m.world.weight 0 + 46 ≤ World.stepsEach *
      (1 + m.world.retriesLeft + m.world.deliveriesLeft + m.world.tasksLeft) := by
  have left : (m.world.requestOf 0).policy.left ≤ m.world.retriesLeft := by
    obtain ⟨l, q, g, booked⟩ := h.recorded.booked h.solo.isOnly
    have request : m.world.requestOf 0 = g.request q :=
      h.solo.isOnly.requestOf (by rw [h.solo.size]; exact Nat.one_pos) booked.stored
    rw [request]
    exact World.left_le_retriesLeft (requests_of_requestAt? booked.stored)
  have tasks : m.world.queued.length = m.world.tasksLeft := by
    unfold World.queued World.tasksLeft
    cases m.world.executor <;> rfl
  -- one thing is under way for the call
  have one := h.sane.one 0
  have performed := m.world.performed_le_one 0
  unfold waiting at one
  simp only at one
  unfold World.weight World.stepsEach
  rw [← World.deliveriesLeft_eq, tasks]
  omega

/-- All tasks are of the only call. -/
theorem Alone.queuedFor_eq (h : Alone i r rest past m) :
    m.world.queuedFor 0 = m.world.queued.length := by
  refine List.countP_eq_length.2 fun k hk => ?_
  have own := Machine.callOf_eq h.sane.valid h.solo.size (h.sane.valid.tasks k hk)
  exact beq_iff_eq.2 own

theorem Alone.lt_budget (h : Alone i r rest past m) (n : Nat) :
    m.world.weight 0 + 46 ≤ m.world.budget n := by
  have := h.weight_le
  unfold World.budget World.stepsEach at *
  omega

/-! ## Operations -/

section

variable {decisive : Prop} {b : Backoff} (policy : r.policy = .backoff b)
  (bounded : r.policy.Bounded)
include policy bounded

/-- Whoever runs the tasks comes to rest. -/
theorem Resting.runs (h : Resting i r decisive rest past m) {x : Instr}
    (hx : x = .serve ∨ x = .runQueue 0) (n : Nat) :
    ∃ rest', Resting i r decisive rest'
        (trail (m.world.budget n) (Machine.doing m.world x []) ++ past)
        (Machine.run (m.world.budget n) (Machine.doing m.world x [])) ∧
      (decisive → (Machine.run (m.world.budget n) (Machine.doing m.world x [])).world.Emptied) := by
  have takes : x.takesTasks = true := by rcases hx with rfl | rfl <;> rfl
  have weight : x.weight = 1 := by rcases hx with rfl | rfl <;> rfl
  have enough : (Machine.doing m.world x []).weight 0 ≤ m.world.budget n := by
    have := h.alone.lt_budget n
    simp only [Machine.weight, Machine.doing, Control.weight, weight, stackWeight, List.map_nil,
      List.sum_nil]
    omega
  have ran := (h.alone.next h.idle hx).run policy bounded
    (P := fun past m => decisive → Faithful past m ∧ m.Drains)
    (fun d => ⟨(h.faithful d).next h.idle takes, .takes x rfl takes⟩)
    (fun past m alone busy both d =>
      ⟨alone.faithful (both d).1, alone.drains (both d).2 (both d).1 busy⟩) enough
  obtain ⟨alone, both, idle⟩ := ran
  exact ⟨_, ⟨alone, idle, fun d => (both d).1⟩, fun d => (both d).2.queued idle⟩

/-- The worker comes to rest, if there is one. -/
theorem Resting.serveAll (h : Resting i r decisive rest past m) :
    m.world.WorkerSettles ∧ ∃ rest' m', m'.world = m.world.serveAll ∧
      Resting i r decisive rest' (m.world.serveTrail ++ past) m' ∧
      (decisive → m.world.Emptied → m.world.serveAll.Emptied) := by
  obtain ⟨rest', served, emptied⟩ := h.runs policy bounded (.inl rfl) 0
  refine ⟨fun _ _ _ => served.idle, ?_⟩
  unfold World.serveAll World.serveTrail
  cases m.world.executor with
  | none => exact ⟨rest, m, rfl, h, fun _ => id⟩
  | some e =>
    dsimp only
    split
    · exact ⟨rest', _, rfl, served, fun d _ => emptied d⟩
    · exact ⟨rest, m, rfl, h, fun _ => id⟩

/-- The tasks are run, and the worker comes to rest too. -/
theorem Resting.runTasks (h : Resting i r decisive rest past m) :
    m.world.Settles .runTasks ∧ ∃ rest' m', m'.world = (m.world.apply .runTasks).2 ∧
      Resting i r decisive rest' (m.world.trailOf .runTasks ++ past) m' ∧
      (decisive → m'.world.Emptied) := by
  obtain ⟨rest', ran, emptied⟩ := h.runs policy bounded (.inr rfl) 0
  obtain ⟨worker, rest'', m', world, served, kept⟩ := ran.serveAll policy bounded
  refine ⟨⟨ran.idle, worker⟩, rest'', m', world, ?_, fun d => ?_⟩
  · unfold World.trailOf
    rw [List.append_assoc]
    exact served
  · rw [world]
    exact kept d (emptied d)

end

end Network

/-! ## Performing -/

section

open Network

variable {i : Nat} {r : Request} {w : World} (h : w.Offers i r) {p : Performance}
  (request : p.request = i) (onSuccess : p.onSuccess.performs = 0)
  (onError : p.onError.performs = 0)
include h request onSuccess onError

theorem World.Offers.solo : (w.openCall p).2.Solo i := by
  have none : w.calls.size = 0 := by rw [h.fresh.calls]; rfl
  have call : (w.openCall p).2.callAt 0 =
      ⟨p.request, p.onSuccess, p.onError, w.classifier, 0, false⟩ := by
    rw [w.callAt_openCall p, if_pos none.symm]
  refine ⟨?_, ?_, ?_, ?_, ?_, h.synchronous⟩
  · show (w.calls.push _).size = 1
    rw [Array.size_push, none]
  · rw [call, request]
  · rw [call]
    exact onSuccess
  · rw [call]
    exact onError
  · rw [World.classifierOf, call]
    exact h.classifier

/-- The request is taken up by a thread of its own. -/
theorem World.Offers.alone :
    (Machine.doing w (.perform p) []).step = Machine.doing (w.openCall p).2 (.dispatch 0) [] ∧
      Alone i r [] [Machine.doing w (.perform p) []]
        (Machine.doing (w.openCall p).2 (.dispatch 0) []) := by
  have none : w.calls.size = 0 := by rw [h.fresh.calls]; rfl
  have step : (Machine.doing w (.perform p) []).step =
      Machine.doing (w.openCall p).2 (.dispatch 0) [] := by
    show Machine.perform w p [] = _
    unfold Machine.perform
    rw [h.present, h.hasExecutor, request, h.request]
    show Machine.doing (w.openCall p).2 (.dispatch w.calls.size) [] = _
    rw [none]
  have arrived : Recorded i r ⟨w, [⟨.run (.perform p), []⟩], []⟩ :=
    (Recorded.start w h.fresh h.request).arrive _ (.perform p)
      (by simp [Thread.on, Machine.turns, Control.turn?])
  have moved := Recorded.move (l := []) arrived (.step (Machine.doing w (.perform p) []))
    (fun c x hc => by cases hc)
  rw [step] at moved
  exact ⟨step, moved, h.solo request onSuccess onError, rfl, by simp⟩

/-- Performing the request comes to rest. -/
theorem World.Offers.performs {b : Backoff} (policy : r.policy = .backoff b)
    (bounded : r.policy.Bounded) :
    w.Settles (.perform p) ∧ ∃ rest m, m.world = (w.apply (.perform p)).2 ∧
      Resting i r (∀ t ∈ w.transport.script, t.Decisive) rest (w.trailOf (.perform p)) m := by
  obtain ⟨step, alone⟩ := h.alone request onSuccess onError
  have faithful (decisive : ∀ t ∈ w.transport.script, t.Decisive) :
      Faithful [Machine.doing w (.perform p) []]
        (Machine.doing (w.openCall p).2 (.dispatch 0) []) := by
    refine ⟨⟨fun a ha _ => ?_, trivial, by simp [Machine.doing]⟩, decisive, ?_⟩
    · have ha : a < w.attempts.size := ha
      rw [h.fresh.attempts] at ha
      exact absurd ha (Nat.not_lt_zero a)
    · intro x hx
      rw [List.mem_singleton.1 hx]
      exact Machine.not_leavesUnanswered rfl
  obtain ⟨n, steps, enough⟩ : ∃ n, w.budget p.performs = n + 1 ∧
      (Machine.doing (w.openCall p).2 (.dispatch 0) []).weight 0 ≤ n := by
    have room : (w.openCall p).2.weight 0 + 46 ≤ World.stepsEach *
        (1 + w.retriesLeft + w.deliveriesLeft + w.tasksLeft) := alone.weight_le
    have weight : (Machine.doing (w.openCall p).2 (.dispatch 0) []).weight 0 =
        (w.openCall p).2.weight 0 + 19 := rfl
    refine ⟨w.budget p.performs - 1, ?_, ?_⟩ <;> unfold World.budget World.stepsEach at *
    · omega
    · omega
  have ran := alone.run policy bounded
    (P := fun past m => (∀ t ∈ w.transport.script, t.Decisive) → Faithful past m) faithful
    (fun past m alone _ both decisive => alone.faithful (both decisive)) enough
  rw [← step] at ran
  obtain ⟨alone, faithful, idle⟩ := ran
  have rests : Resting i r (∀ t ∈ w.transport.script, t.Decisive) []
      (trail (w.budget p.performs) (Machine.doing w (.perform p) []))
      (Machine.run (w.budget p.performs) (Machine.doing w (.perform p) [])) := by
    rw [steps]
    exact ⟨alone, idle, faithful⟩
  obtain ⟨worker, rest, m, world, served, -⟩ := rests.serveAll policy bounded
  exact ⟨⟨rests.idle, worker⟩, rest, m, world, served⟩

end

/-! ## Attempts -/

namespace Network

variable {i : Nat} {r : Request}

/-- The transport saw a timeout with each attempt that it was handed. -/
theorem Reachable.length_timeouts {s : Network} (h : Reachable s) (c : Nat) :
    (s.world.timeouts c).length = s.times (.send c) := by
  induction h with
  | start w h => simp [World.timeouts, h.trace, times]
  | @step s s' h hs ih =>
    cases hs with
    | move w u t r' past m hm =>
      rw [times_cons]
      by_cases sends : (t.on w).does (.send c) = 0
      · rw [timeouts_of_other hm sends, sends]
        exact ih
      · obtain ⟨a, headers, hc, called⟩ := control_of_send sends
        have call : w.callOf a = c := called
        obtain ⟨control, stack⟩ := t
        obtain rfl : control = .run (.send a headers) := hc
        cases hm
        have told := (Machine.send_world w a headers stack).2.2.2 c
        have one : (Thread.on ⟨.run (.send a headers), stack⟩ w).does (.send c) = 1 :=
          Machine.does_of_eq (congrArg Act.send call)
        rw [if_pos call] at told
        rw [one]
        show ((Machine.send w a headers stack).world.timeouts c).length = _
        rw [told, List.length_append, ih]
        rfl
    | arrive _ t ht => exact ih
    | meanwhile _ w hw => exact (congrArg List.length (hw.timeouts c)).trans ih

section

variable {s : Network} {l : List Trial} {q : Request} {g : Stage} {b : Backoff}
  (h : s.Booked i 0 r l q g) (policy : r.policy = .backoff b) (count : b.count = 0)
  (small : b.limit.toNat + 1 < UInt32.size)
include h policy count small

/-- An attempt for each retry of the policy, and one before. -/
theorem Booked.attempts_le : s.world.attemptsOf 0 ≤ b.limit.toNat + 1 := by
  have attempts := h.attempts
  have tried := h.retried.length_le policy count small
  have last := g.attempts_le_one
  omega

/-- A call that used up its policy used up all attempts. -/
theorem Booked.attempts_of_exhausted {b' : Backoff} (hb : (g.request q).policy = .backoff b')
    (exhausted : b'.hasAttemptLeft = false) : s.world.attemptsOf 0 = b.limit.toNat + 1 := by
  obtain ⟨d, policy', limit, counted⟩ := h.retried.backoff policy
  rw [count, UInt32.zero_add] at counted
  have tried := h.retried.length_le policy count small
  have number (n : Nat) (hn : n ≤ l.length + 1) : (UInt32.ofNat n).toNat = n :=
    h.retried.toNat_count policy count small hn
  rcases h.closing policy' with ⟨-, same⟩ | ⟨reason, e, failed, refused, -⟩
  · -- a policy that was not refused has a retry left
    rw [same, policy'] at hb
    obtain rfl : d = b' := by cases hb; rfl
    have left : d.count ≤ d.limit := by
      rw [UInt32.le_iff_toNat_le, limit, counted, number _ (Nat.le_succ _)]
      exact tried
    unfold Backoff.hasAttemptLeft at exhausted
    exact absurd left (of_decide_eq_false exhausted)
  · have beyond : ¬ d.count + 1 ≤ d.limit := by
      rw [← Backoff.retry_allows_iff d e, refused]
      simp
    have next : d.count + 1 = UInt32.ofNat (l.length + 1) := by
      rw [counted, UInt32.ofNat_add]
      rfl
    rw [UInt32.le_iff_toNat_le, limit, next, number _ (Nat.le_refl _)] at beyond
    have attempts := h.attempts
    cases g with
    | ready | waiting => cases failed
    | failed x =>
      simp only [Stage.attempts] at attempts
      omega

end

end Network

/-! ## Result -/

/-- **Retries are bounded, and every run ends.**  A fresh request with a backoff policy is performed,
and the tasks are run: both come to rest within the steps that a session allows them, whatever the
transport's script, the cache entry, the pool and the executor.  The request is tried at most once for
each retry of its policy and once before, each attempt is handed to the transport once at most, and
the continuation is told one result if the transport is decisive.  A policy that is exhausted in the
end had all its attempts made. -/
theorem World.Offers.ends_within {w : World} {i : Nat} {r : Request} (h : w.Offers i r)
    {b : Backoff} (policy : r.policy = .backoff b) (count : b.count = 0)
    (small : b.limit.toNat + 1 < UInt32.size) {p : Performance} (request : p.request = i)
    (onSuccess : p.onSuccess.performs = 0) (onError : p.onError.performs = 0) :
    w.EndsWithin p (b.limit.toNat + 1) := by
  have bounded := RetryPolicy.bounded_of_fresh policy count small
  obtain ⟨performs, rest, m, world, performed⟩ :=
    h.performs request onSuccess onError policy bounded
  obtain ⟨drains, rest', m', world', drained, emptied⟩ := performed.runTasks policy bounded
  rw [world] at drains world' drained
  have carried : w.carryOut p = m'.world := world'.symm
  have trail : (w.apply (.perform p)).2.trailOf .runTasks ++ w.trailOf (.perform p) =
      w.carryOutTrail p := by
    simp [World.carryOutTrail, World.trailAll]
  rw [trail] at drained
  have alone := drained.alone
  have reachable := alone.recorded.reachable
  have inside : 0 < m'.world.calls.size := by
    rw [alone.solo.size]
    exact Nat.one_pos
  obtain ⟨l, q, g, booked⟩ := alone.recorded.booked alone.solo.isOnly
  refine ⟨performs, drains, ?_, ?_, ?_, ?_, ?_, ?_, ?_⟩
  · rw [carried]
    exact booked.attempts_le policy count small
  · have sent := reachable.length_timeouts 0
    have begun := (alone.sane.balanced 0).begun
    rw [carried]
    simp only at sent begun
    omega
  · intro a
    have once := alone.recorded.orderly.once a
    unfold Network.handed at once
    simp only at once
    omega
  · rw [carried]
    exact alone.solo.size
  · rw [carried]
    exact reachable.answers_le_one 0
  · intro decisive
    rw [carried]
    have answered := (drained.faithful decisive).answered alone drained.idle (emptied decisive)
    have one := alone.sane.one 0
    have performed := m'.world.performed_le_one 0
    have tasks := alone.queuedFor_eq
    simp only at one
    exact ⟨answered, List.length_eq_zero_iff.1 (by omega)⟩
  · intro b' hb exhausted
    rw [carried] at hb ⊢
    rw [alone.solo.isOnly.requestOf inside booked.stored] at hb
    exact booked.attempts_of_exhausted policy count small hb exhausted

/-- A request that may be tried three times, and asks a server to confirm what is in the cache. -/
def cachedThreeTimes : Request :=
  { url := text "u", method := text "GET", cache := some { etag := text "v" },
    policy := .backoff { limit := 2 }, retryConnectionErrors := true }

/-- A transport that raises a fault, then brings a body that breaks off, and then has nothing more to
do; so the last two attempts begin while the tasks are run. -/
def failingTransport : World :=
  { requests := #[some cachedThreeTimes]
    transport := { script := [.raise (.runtime (text "down")),
      .deliver (.reply (.ofStream 200 [] (some (.failing (text "ab") 1))))] } }

theorem failingTransport_offers : failingTransport.Offers 0 cachedThreeTimes := by
  refine ⟨⟨rfl, rfl, rfl, rfl, ?_⟩, rfl, rfl, rfl, rfl, rfl⟩
  intro e he
  cases he
  rfl

theorem ends_within_failingTransport :
    failingTransport.Offers 0 cachedThreeTimes ∧
      failingTransport.EndsWithin ⟨0, .rest, .raise (text "told")⟩ 3 ∧
      (∀ t ∈ failingTransport.transport.script, t.Decisive) ∧
      (failingTransport.carryOut ⟨0, .rest, .raise (text "told")⟩).answers 0 = 1 ∧
      (failingTransport.carryOut ⟨0, .rest, .raise (text "told")⟩).timeouts 0 = [2500, 5000, 10000] ∧
      (failingTransport.carryOut ⟨0, .rest, .raise (text "told")⟩).attemptsOf 0 = 3 := by
  have ends := failingTransport_offers.ends_within (b := { limit := 2 })
    (p := ⟨0, .rest, .raise (text "told")⟩) rfl rfl (by decide) rfl rfl rfl
  have decisive : ∀ t ∈ failingTransport.transport.script, t.Decisive := by
    simp [failingTransport]
  exact ⟨failingTransport_offers, ends, decisive, (ends.answered decisive).1, by decide +kernel,
    by decide +kernel⟩

end RequestFlow
