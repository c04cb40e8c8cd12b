import RequestFlow.Network.Session
import RequestFlow.Proofs.Retrials

/-!
# What the retry flags decide

The two flags of a request decide whether some failures are candidates for a retry, and nothing else.
So a failure is reported as the same error under all flags, and a flag that is switched on can only
turn a final error into a candidate.  A machine looks at the flags when it has a failure classified
and at no other step: any other step comes to the same whether they are seen or not.

    an error under more flags is the same, and a candidate if it was one     (categorize_loosens)
    verdicts on one category differ in nothing but the flags                 (classify_blind)
    a step that classifies no failure does not see the flags                 (Machine.step_blind)
-/

namespace RequestFlow

/-! ## Requests and categories -/

namespace Request

def withFlags (r : Request) (server connection : Bool) : Request :=
  { r with retryServerErrors := server, retryConnectionErrors := connection }

/-- The request as it is seen where the flags are not looked at. -/
def blind (r : Request) : Request := r.withFlags false false

/-- The flags of the first request are on in the second one too. -/
structure Loosens (r r' : Request) : Prop where
  server : r.retryServerErrors = true → r'.retryServerErrors = true
  connection : r.retryConnectionErrors = true → r'.retryConnectionErrors = true

/-- Requests that differ in their flags only. -/
theorem eq_withFlags {r r' : Request} (h : r.blind = r'.blind) :
    r' = r.withFlags r'.retryServerErrors r'.retryConnectionErrors := by
  cases r
  cases r'
  simp_all [blind, withFlags]

end Request

/-- The same category, or a final error of which the second one makes a candidate. -/
def Category.Loosens (k k' : Category) : Prop :=
  k = k' ∨ ∃ reason e, k = .final e ∧ k' = .candidate reason e

namespace Category

theorem Loosens.error {k k' : Category} (h : k.Loosens k') : k.error = k'.error := by
  rcases h with rfl | ⟨reason, e, rfl, rfl⟩ <;> rfl

theorem Loosens.isCandidate {k k' : Category} (h : k.Loosens k') (hk : k.isCandidate = true) :
    k'.isCandidate = true := by
  rcases h with rfl | ⟨reason, e, rfl, rfl⟩
  · exact hk
  · rfl

theorem candidateIf_loosens {on on' : Bool} (h : on = true → on' = true) (reason : RetryReason)
    (e : RequestError) : (candidateIf on reason e).Loosens (candidateIf on' reason e) := by
  cases on with
  | true => rw [h rfl]; exact .inl rfl
  | false =>
    cases on' with
    | false => exact .inl rfl
    | true => exact .inr ⟨reason, e, rfl, rfl⟩

end Category

section

variable {r r' : Request} {x : FailureContext}

/-- More flags make candidates of final errors at most, and change no error. -/
theorem categorize_loosens (same : r.blind = r'.blind) (h : r.Loosens r') (x : FailureContext) :
    (categorize r x).Loosens (categorize r' x) := by
  rw [Request.eq_withFlags same]
  unfold categorize
  split
  · exact .inl rfl
  · exact .inl rfl
  · unfold categorizeReceived
    split
    · exact Category.candidateIf_loosens h.connection _ _
    · split
      · exact .inl rfl
      · unfold categorizeStatus
        dsimp only
        split
        · exact .inl rfl
        · split
          · exact .inl rfl
          · split
            · exact Category.candidateIf_loosens h.server _ _
            · exact .inl rfl

theorem error_categorize_of_blind (same : r.blind = r'.blind) (x : FailureContext) :
    (categorize r' x).error = (categorize r x).error := by
  rw [Request.eq_withFlags same]
  exact error_categorize r _ _ x

/-! ## Verdicts -/

/-- The verdict, but for the flags of the request. -/
def Verdict.blind (v : Verdict) : Verdict := { v with request := v.request.blind }

theorem settleCandidate_blind (same : r.blind = r'.blind) (reason : RetryReason) (e : RequestError) :
    (settleCandidate r reason e).blind = (settleCandidate r' reason e).blind := by
  rw [Request.eq_withFlags same]
  unfold settleCandidate Request.retry Request.withFlags
  cases r.policy.retry e with
  | error f => rfl
  | ok result =>
    obtain ⟨policy, allowed, records⟩ := result
    cases allowed <;> rfl

/-- Verdicts on one category differ in nothing but the flags. -/
theorem classify_blind (same : r.blind = r'.blind) (category : categorize r x = categorize r' x) :
    (classify r x).blind = (classify r' x).blind := by
  have records : receivedRecords r x = receivedRecords r' x := by
    rw [Request.eq_withFlags same]
    rfl
  unfold classify
  rw [← category, records]
  cases categorize r x with
  | final e => exact congrArg (Verdict.mk _ · _) same
  | candidate reason e =>
    have settled := settleCandidate_blind same reason e
    simp only [Verdict.blind, Verdict.mk.injEq] at settled ⊢
    exact ⟨settled.1, settled.2.1, by rw [settled.2.2]⟩

/-- A retry that is granted is granted under more flags too. -/
theorem classify_blind_of_granted (same : r.blind = r'.blind) (h : r.Loosens r')
    {reason : RetryReason} (granted : (classify r x).answer = .ok (.retry reason)) :
    (classify r x).blind = (classify r' x).blind := by
  obtain ⟨e, -, -, candidate, -⟩ := classify_granted granted
  refine classify_blind same ?_
  rcases categorize_loosens same h x with category | ⟨_, _, final, -⟩
  · exact category
  · rw [candidate] at final
    cases final

/-- Where no retry is allowed, every failure is reported as its error. -/
theorem classify_answer_of_limit_zero {b : Backoff} (policy : r.policy = .backoff b)
    (count : b.count = 0) (limit : b.limit = 0) (x : FailureContext) :
    (classify r x).answer = .ok (.final (categorize r x).error) := by
  unfold classify
  cases categorize r x with
  | final e => rfl
  | candidate reason e =>
    have refused : (b.retry e).2.1 = false := by
      rw [Bool.eq_false_iff, ne_eq, Backoff.retry_allows_iff, count, limit]
      decide
    dsimp only
    rw [(settleCandidate_backoff policy reason e).1, refused]
    rfl

theorem classify_flags (r : Request) (x : FailureContext) :
    (classify r x).request.retryServerErrors = r.retryServerErrors ∧
      (classify r x).request.retryConnectionErrors = r.retryConnectionErrors := by
  unfold classify
  cases categorize r x with
  | final e => exact ⟨rfl, rfl⟩
  | candidate reason e =>
    dsimp only
    unfold settleCandidate Request.retry
    cases r.policy.retry e with
    | error f => exact ⟨rfl, rfl⟩
    | ok result =>
      obtain ⟨policy, allowed, records⟩ := result
      cases allowed <;> exact ⟨rfl, rfl⟩

end

/-! ## Worlds -/

namespace World

/-- The world as it is seen where the flags are not looked at. -/
def blind (w : World) : World := { w with requests := w.requests.map (Option.map Request.blind) }

end World

/-- The machine in a world in which the flags are not seen. -/
def Machine.blind (m : Machine) : Machine := ⟨m.world.blind, m.control, m.stack⟩

namespace World

variable (w : World)

theorem requestAt?_blind (i : Nat) : w.blind.requestAt? i = (w.requestAt? i).map Request.blind := by
  simp only [requestAt?, blind, Array.getElem?_map]
  cases w.requests[i]? <;> rfl

theorem requestOf_blind (c : Nat) : w.blind.requestOf c = (w.requestOf c).blind := by
  have call : w.blind.callAt c = w.callAt c := rfl
  rw [requestOf, call, requestAt?_blind, requestOf]
  cases w.requestAt? (w.callAt c).request <;> rfl

theorem logFor_blind (c : Nat) (level : Level) (message : Bytes) :
    w.blind.logFor c level message = (w.logFor c level message).blind := by
  rw [logFor, requestOf_blind]
  rfl

theorem closeStream?_blind (s : Option Stream) :
    w.blind.closeStream? s = (w.closeStream? s).blind := by
  cases s <;> rfl

theorem budget_blind (n : Nat) : w.blind.budget n = w.budget n := by
  have left : w.blind.retriesLeft = w.retriesLeft := by
    simp only [retriesLeft, blind, Array.foldl_map, Option.map_map]
    rfl
  simp only [budget, left]
  rfl

end World

/-! ## Steps -/

namespace Machine

variable (w : World) (stack : List Frame)

theorem perform_blind (p : Performance) :
    perform w.blind p stack = (perform w p stack).blind := by
  have present : w.blind.present = w.present := rfl
  have executor : w.blind.hasExecutor = w.hasExecutor := rfl
  unfold perform
  rw [present, executor, w.requestAt?_blind, Option.isNone_map]
  split
  · rfl
  · split
    · rfl
    · split <;> rfl

theorem begin_blind (c : Nat) : begin w.blind c stack = (begin w c stack).blind := by
  have opened : w.blind.openAttempt c = ((w.openAttempt c).1, (w.openAttempt c).2.blind) := rfl
  have cache (r : Request) : r.blind.cache = r.cache := rfl
  unfold begin
  rw [opened]
  dsimp only
  rw [World.requestOf_blind, cache]
  split <;> rfl

theorem send_blind (a : Nat) (headers : List Header) :
    send w.blind a headers stack = (send w a headers stack).blind := by
  have call : w.blind.callOf a = w.callOf a := rfl
  have timeout (r : Request) : r.blind.timeout = r.timeout := rfl
  have transport (e : Event) : (w.blind.note e).transport = (w.note e).transport := rfl
  unfold send
  dsimp only
  rw [call, World.requestOf_blind, timeout, transport]
  split <;> rfl

theorem takeTurn_blind (a : Nat) (t : Turn) :
    takeTurn w.blind a t stack = (takeTurn w a t stack).blind := by
  unfold takeTurn
  split
  · dsimp only
    split <;> rfl
  · rfl

theorem openReply_blind (a : Nat) (r : Reply Stream) :
    openReply w.blind a r stack = (openReply w a r stack).blind := by
  have call : w.blind.callOf a = w.callOf a := rfl
  have cache (r : Request) : r.blind.cache = r.cache := rfl
  unfold openReply
  dsimp only
  rw [call, World.requestOf_blind, cache]
  split
  · rfl
  · split <;> rfl

theorem deliver_blind (a : Nat) (o : Outcome Stream) :
    deliver w.blind a o stack = (deliver w a o stack).blind := by
  have attempt : w.blind.attemptAt a = w.attemptAt a := rfl
  have call : w.blind.callOf a = w.callOf a := rfl
  have resolved : w.blind.resolve a = (w.resolve a).blind := rfl
  unfold deliver
  dsimp only
  rw [attempt, call, resolved]
  split
  · rw [World.logFor_blind, World.closeStream?_blind]
    rfl
  · cases o with
    | authFailure message => rfl
    | failure f => rfl
    | reply r => exact openReply_blind (w.resolve a) stack a r

theorem schedule_blind (k : CopyTask) :
    schedule w.blind k stack = (schedule w k stack).blind := by
  have executor : w.blind.executor = w.executor := rfl
  unfold schedule
  rw [executor]
  split
  · rfl
  · dsimp only
    split
    · rfl
    · split
      · rfl
      · rfl
      · split <;> rfl
      · split <;> rfl

theorem unscheduled_blind (k : CopyTask) (f : Fault) :
    unscheduled w.blind k f stack = (unscheduled w k f stack).blind := by
  have call : w.blind.callOf k.attempt = w.callOf k.attempt := rfl
  unfold unscheduled
  dsimp only
  rw [call, World.logFor_blind]
  rfl

theorem copy_blind (k : CopyTask) : copy w.blind k stack = (copy w k stack).blind := by
  have pool : w.blind.pool = w.pool := rfl
  have config : w.blind.config = w.config := rfl
  unfold copy
  rw [pool, config]
  dsimp only
  split <;> rfl

theorem receive_blind (a : Nat) (status : StatusCode) (headers : List Header) (body : Bytes) :
    receive w.blind a status headers body stack = (receive w a status headers body stack).blind := by
  have call : w.blind.callOf a = w.callOf a := rfl
  have records (config : Config) (r : Request) (t : Int) (n : Nat) (status : StatusCode) :
      receptionRecords config r.blind t n status = receptionRecords config r t n status := rfl
  have elapsed : w.blind.elapsed a = w.elapsed a := rfl
  unfold receive
  dsimp only
  rw [call, World.requestOf_blind, records, elapsed]
  split <;> rfl

theorem settle_blind (c : Nat) (time : Int) (answer : Except Fault Decision) :
    settle w.blind c time answer stack = (settle w c time answer stack).blind := by
  unfold settle
  split
  · dsimp only
    rw [World.logFor_blind]
    rfl
  · rfl
  · dsimp only
    rw [World.logFor_blind]
    rfl

theorem complete_blind (c : Nat) (result : Except RequestError Response) :
    complete w.blind c result stack = (complete w c result stack).blind := by
  have call : w.blind.callAt c = w.callAt c := rfl
  unfold complete
  dsimp only
  rw [call, World.logFor_blind]
  split
  · rfl
  · split <;> rfl

theorem takeTask_blind :
    takeTask w.blind = (takeTask w).map fun taken => (taken.1, taken.2.blind) := by
  have executor : w.blind.executor = w.executor := rfl
  unfold takeTask
  rw [executor]
  split
  · rfl
  · split <;> rfl

/-- Every instruction but one that has a failure classified. -/
theorem exec_blind {i : Instr} (hi : ∀ c x, i ≠ .fail c x) :
    exec w.blind i stack = (exec w i stack).blind := by
  cases i with
  | perform p => exact perform_blind w stack p
  | dispatch c =>
    have call : w.blind.callAt c = w.callAt c := rfl
    simp only [exec, dispatch, call]
    split <;> rfl
  | begin c => exact begin_blind w stack c
  | send a headers => exact send_blind w stack a headers
  | turn a t => exact takeTurn_blind w stack a t
  | deliver a o => exact deliver_blind w stack a o
  | schedule k => exact schedule_blind w stack k
  | unscheduled k f => exact unscheduled_blind w stack k f
  | copy k => exact copy_blind w stack k
  | receive a status headers body => exact receive_blind w stack a status headers body
  | fail c x => exact absurd rfl (hi c x)
  | settle c time answer => exact settle_blind w stack c time answer
  | complete c result => exact complete_blind w stack c result
  | react r => cases r <;> rfl
  | runQueue n =>
    simp only [exec, runQueue, takeTask_blind]
    cases takeTask w <;> rfl
  | serve =>
    simp only [exec, serve, takeTask_blind]
    cases takeTask w <;> rfl

theorem resume_blind (f : Frame) : resume w.blind f stack = (resume w f stack).blind := by
  cases f with
  | attempts c =>
    have call : w.blind.callAt c = w.callAt c := rfl
    simp only [resume, nextAttempt, call]
    split <;> rfl
  | submitting k fails => cases fails <;> rfl
  | reacting fault => cases fault <;> rfl
  | sending _ | nested | turn _ _ | holding _ | answering _ | queue _ | worker => rfl

theorem unwind_blind (fault : Fault) (f : Frame) :
    unwind w.blind fault f stack = (unwind w fault f stack).blind := by
  cases f with
  | sending a =>
    have attempt : w.blind.attemptAt a = w.attemptAt a := rfl
    simp only [unwind, attempt]
    split <;> rfl
  | holding _ | submitting _ _ | worker | attempts _ | nested | turn _ _ | reacting _ | answering _
  | queue _ => rfl

/-- A step that has no failure classified does not see the flags. -/
theorem step_blind {m : Machine} (hm : ∀ c x, m.control ≠ .run (.fail c x)) :
    m.blind.step = m.step.blind := by
  obtain ⟨w, control, stack⟩ := m
  cases control with
  | run i => exact exec_blind w stack fun c x hi => hm c x (congrArg _ hi)
  | done a =>
    cases stack with
    | nil => rfl
    | cons f stack => exact resume_blind w stack f
  | raised fault =>
    cases stack with
    | nil => rfl
    | cons f stack => exact unwind_blind w stack fault f

end Machine

end RequestFlow
