import RequestFlow.BodyCopy
import RequestFlow.Buffer.Pool
import RequestFlow.Failure.Decision
import RequestFlow.Network.Turn
import RequestFlow.Reception

/-!
# The plain retry loop

What performing one request comes to when nothing is called back, queued or run on another stack:
take the next step of the script, obtain the body if there is one, look at the status, have a failure
classified, and begin again while the classifier grants it.  Times run from the start of the attempt
that is under way.

    a retry that was granted leaves one retry fewer            (classify_retry)
    l.run = after l.attempt, while the policy is bounded       (run_eq)
-/

namespace RequestFlow

/-! ## Algorithm -/

structure PlainLoop where
  request : Request
  /-- The steps to come; without one an attempt fails. -/
  script : List Delivery
  pool : Pool
  /-- Size of the first buffer for a body of unknown length. -/
  bodyBuffer : Nat
  /-- Bodies in a stream cannot be copied, since the executor takes no tasks. -/
  refusing : Bool
  /-- Nanoseconds. -/
  clock : Int
  streams : Nat
  /-- Extra headers and timeout of every attempt that was sent. -/
  sent : Array (List Header × Int)

/-- What became of an attempt. -/
inductive Upshot
  | ended (result : Except RequestError Response)
  | failed (context : FailureContext)

/-- The result of a request, and the loop as it was left. -/
abbrev Ending := Except RequestError Response × PlainLoop

namespace PlainLoop

/-- Whole milliseconds since the attempt began. -/
def elapsed (l : PlainLoop) (start : Int) : Int := (l.clock - start).tdiv 1000000

/-- Looks at a response whose body is complete. -/
def receive (l : PlainLoop) (start : Int) (status : StatusCode) (headers : List Header)
    (body : Bytes) : Upshot × PlainLoop :=
  match RequestFlow.receive status headers body (l.elapsed start) with
  | .delivered response => (.ended (.ok response), l)
  | .failed context => (.failed context, l)

/-- A response whose body could not be read. -/
def unread (l : PlainLoop) (start : Int) (status : StatusCode) (headers : List Header)
    (f : Fault) : Upshot × PlainLoop :=
  (.failed
    { failure := ⟨.io, f.message⟩
      response := some ⟨status, headers, none⟩
      networkTime := l.elapsed start }, l)

def copy (l : PlainLoop) (start : Int) (status : StatusCode) (headers : List Header) (s : Stream)
    (length : Int) : Upshot × PlainLoop :=
  let copied := copyBody s.id s.source length l.pool l.bodyBuffer
  let l := { l with clock := l.clock + copied.elapsed, pool := copied.pool }
  match copied.body with
  | .error f => l.unread start status headers f
  | .ok body => l.receive start status headers body

/-- Copies the body of a stream, unless that is refused. -/
def fetch (l : PlainLoop) (start : Int) (status : StatusCode) (headers : List Header)
    (s : Stream) (length : Int) : Upshot × PlainLoop :=
  if l.refusing then l.unread start status headers .executorRefuses
  else l.copy start status headers s length

def reply (l : PlainLoop) (start : Int) (r : Reply Stream) : Upshot × PlainLoop :=
  if r.status = StatusCode.notModified then
    (.ended (.ok (CacheEntry.notModified r.headers l.request.cache (l.elapsed start))), l)
  else
    match r.bytes, r.stream with
    | some body, _ => l.receive start r.status r.headers body
    | none, none => l.receive start r.status r.headers []
    | none, some s => l.fetch start r.status r.headers s r.length

def outcome (l : PlainLoop) (start : Int) : Outcome Stream → Upshot × PlainLoop
  | .reply r => l.reply start r
  | .authFailure message =>
    (.ended (.error
      { kind := .authFailure, details := message, networkTime := l.elapsed start }), l)
  | .failure f => (.failed { failure := f, networkTime := l.elapsed start }, l)

/-- One step of the script. -/
def take (l : PlainLoop) (start : Int) (d : Delivery) : Upshot × PlainLoop :=
  let (outcome, next) := d.outcome.number l.streams
  { l with clock := l.clock + d.delay, streams := next }.outcome start outcome

def noStepLeft : Delivery := { outcome := .failure ⟨.io, text "no scripted step left"⟩ }

/-- The next step of the script. -/
def answer (l : PlainLoop) (start : Int) : Upshot × PlainLoop :=
  match l.script with
  | [] => l.take start noStepLeft
  | d :: rest => { l with script := rest }.take start d

def noteSent (l : PlainLoop) (headers : List Header) : PlainLoop :=
  { l with sent := l.sent.push (headers, l.request.timeout) }

def attempt (l : PlainLoop) : Upshot × PlainLoop :=
  match CacheEntry.conditionalHeaders l.request.cache with
  | .error f =>
    (.failed { failure := ⟨.io, f.message⟩, networkTime := l.elapsed l.clock }, l)
  | .ok headers => (l.noteSent headers).answer l.clock

/-- What the answer of the classifier makes of a failed attempt; nothing if it is a retry. -/
def conclusion (networkTime : Int) : Except Fault Decision → Option (Except RequestError Response)
  | .error f =>
    some (.error
      { kind := .network, details := text "failure classification error: " ++ f.message
        networkTime })
  | .ok (.final error) => some (.error error)
  | .ok (.retry _) => none

end PlainLoop

/-! ## Retries that are left -/

/-- The policy has not yet refused a retry, and its count cannot wrap around before it does. -/
def RetryPolicy.Bounded : RetryPolicy → Prop
  | .backoff b => b.count.toNat ≤ b.limit.toNat ∧ b.limit.toNat + 1 < UInt32.size
  | .failing _ => True

instance (p : RetryPolicy) : Decidable p.Bounded := by
  cases p with
  | backoff b => exact inferInstanceAs (Decidable (_ ∧ _))
  | failing message => exact inferInstanceAs (Decidable True)

theorem Backoff.retry_allowed {b next : Backoff} {e : RequestError} {records : List LogRecord}
    (hb : (RetryPolicy.backoff b).Bounded) (h : b.retry e = (next, true, records)) :
    (RetryPolicy.backoff next).Bounded ∧
      (RetryPolicy.backoff next).left + 1 = (RetryPolicy.backoff b).left := by
  obtain ⟨hc, hl⟩ := hb
  have count : next.count = b.count + 1 := by rw [← count_retry b e, h]
  have limit : next.limit = b.limit := by rw [← limit_retry b e, h]
  have allowed := (retry_allows_iff b e).1 (by rw [h])
  -- the count does not wrap around, since it is at most the limit
  have counted : (b.count + 1).toNat = b.count.toNat + 1 := by
    rw [UInt32.toNat_add, UInt32.toNat_one]
    exact Nat.mod_eq_of_lt (Nat.lt_of_le_of_lt (Nat.succ_le_succ hc) hl)
  rw [UInt32.le_iff_toNat_le, counted] at allowed
  simp only [RetryPolicy.Bounded, RetryPolicy.left, count, limit, counted]
  omega

theorem settleCandidate_retry {r : Request} {reason why : RetryReason} {e : RequestError}
    (hb : r.policy.Bounded) (h : (settleCandidate r reason e).answer = .ok (.retry why)) :
    (settleCandidate r reason e).request.policy.Bounded ∧
      (settleCandidate r reason e).request.policy.left + 1 = r.policy.left := by
  unfold settleCandidate Request.retry RetryPolicy.retry at h ⊢
  cases hp : r.policy with
  | failing message => simp [hp, Except.map] at h
  | backoff b =>
    rw [hp] at hb
    rcases hr : b.retry e with ⟨next, allowed, records⟩
    cases allowed with
    | false => simp [hp, hr, Except.map] at h
    | true =>
      simpa [hr, Except.map, Request.addMarker] using Backoff.retry_allowed hb hr

theorem classify_retry {r : Request} {context : FailureContext} {reason : RetryReason}
    (hb : r.policy.Bounded) (h : (classify r context).answer = .ok (.retry reason)) :
    (classify r context).request.policy.Bounded ∧
      (classify r context).request.policy.left + 1 = r.policy.left := by
  unfold classify at h ⊢
  cases hc : categorize r context with
  | final e => simp [hc] at h
  | candidate why e =>
    simp only [hc] at h ⊢
    exact settleCandidate_retry hb h

/-! ## An attempt leaves the request alone -/

namespace PlainLoop

theorem receive_request (l : PlainLoop) (start : Int) (status : StatusCode) (headers : List Header)
    (body : Bytes) : (l.receive start status headers body).2.request = l.request := by
  unfold receive
  split <;> rfl

theorem fetch_request (l : PlainLoop) (start : Int) (status : StatusCode) (headers : List Header)
    (s : Stream) (length : Int) : (l.fetch start status headers s length).2.request = l.request := by
  unfold fetch copy
  split
  · rfl
  · simp only
    split
    · rfl
    · rw [receive_request]

theorem outcome_request (l : PlainLoop) (start : Int) (o : Outcome Stream) :
    (l.outcome start o).2.request = l.request := by
  cases o with
  | authFailure message => rfl
  | failure f => rfl
  | reply r =>
    unfold outcome reply
    simp only
    split
    · rfl
    · split
      · rw [receive_request]
      · rw [receive_request]
      · rw [fetch_request]

theorem attempt_request (l : PlainLoop) : l.attempt.2.request = l.request := by
  have taken (l : PlainLoop) (start : Int) (d : Delivery) :
      (l.take start d).2.request = l.request := outcome_request _ _ _
  unfold attempt answer
  split
  · rfl
  · split
    · rw [taken]
      rfl
    · rw [taken]
      rfl

theorem conclusion_eq_none {networkTime : Int} {answer : Except Fault Decision}
    (h : conclusion networkTime answer = none) : ∃ reason, answer = .ok (.retry reason) := by
  cases answer with
  | error f => cases h
  | ok decision =>
    cases decision with
    | final error => cases h
    | retry reason => exact ⟨reason, rfl⟩

/-- A failed attempt that is tried again leaves fewer retries. -/
theorem left_retried {l l' : PlainLoop} {context : FailureContext}
    (bounded : l.request.policy.Bounded) (attempted : l.attempt = (.failed context, l'))
    (concluded : conclusion context.networkTime (classify l'.request context).answer = none) :
    (classify l'.request context).request.policy.left < l.request.policy.left := by
  have same := attempt_request l
  rw [attempted] at same
  obtain ⟨reason, granted⟩ := conclusion_eq_none concluded
  have fewer := (classify_retry (by rw [same]; exact bounded) granted).2
  rw [← same, ← fewer]
  exact Nat.lt_succ_self _

/-! ## The loop -/

/-- Runs the loop to its end; nothing if the count of retries may wrap around. -/
def run (l : PlainLoop) : Option Ending :=
  if bounded : l.request.policy.Bounded then
    match attempted : l.attempt with
    | (.ended result, l') => some (result, l')
    | (.failed context, l') =>
      match concluded : conclusion context.networkTime (classify l'.request context).answer with
      | some result => some (result, { l' with request := (classify l'.request context).request })
      | none =>
        have _fewer := left_retried bounded attempted concluded
        run { l' with request := (classify l'.request context).request }
  else none
termination_by l.request.policy.left
decreasing_by exact _fewer

/-- What follows once the classifier has answered. -/
def settled (l : PlainLoop) (networkTime : Int) (answer : Except Fault Decision) : Option Ending :=
  match conclusion networkTime answer with
  | some result => some (result, l)
  | none => l.run

/-- What follows once an attempt has come to something. -/
def after : Upshot × PlainLoop → Option Ending
  | (.ended result, l) => some (result, l)
  | (.failed context, l) =>
    let verdict := classify l.request context
    { l with request := verdict.request }.settled context.networkTime verdict.answer

theorem run_eq {l : PlainLoop} (h : l.request.policy.Bounded) : l.run = after l.attempt := by
  rw [run, dif_pos h]
  split
  · next attempted => rw [attempted, after]
  · next context l' attempted =>
    have failed : after l.attempt = after (.failed context, l') := by rw [attempted]
    rw [failed, after]
    unfold settled
    split
    · next concluded => simp only [concluded]
    · next concluded => simp only [concluded]

end PlainLoop

end RequestFlow
