import RequestFlow.Binary.Single
import RequestFlow.Event

/-!
# Retry policies

A policy holds the timeout of the next attempt and counts the retries asked of it.  `Backoff` allows
a fixed number of retries and lengthens the timeout at each one, allowed or not, by the timeout
times a multiplier; the product is taken in single precision and cut to whole milliseconds.  The
count and the timeout are machine words and wrap around.

    (b.retry e).1.count = b.count + 1                          (Backoff.count_retry)
    b.retry e allows the retry ↔ b.count + 1 ≤ b.limit         (Backoff.retry_allows_iff)
-/

namespace RequestFlow

/-! ## Algorithm -/

structure Backoff where
  /-- Milliseconds. -/
  timeout : Int := 2500
  /-- Retries asked for so far. -/
  count : UInt32 := 0
  /-- Retries allowed. -/
  limit : UInt32 := 1
  multiplier : Single := Single.one
  deriving DecidableEq, Repr

namespace Backoff

def make (timeout : Int) (limit : UInt32) (multiplier : Single) : Except Fault Backoff :=
  if timeout < 0 then .error (.negativeTimeout timeout)
  else if multiplier.isNegative then .error .negativeMultiplier
  else .ok { timeout, limit, multiplier }

def hasAttemptLeft (b : Backoff) : Bool := b.count ≤ b.limit

/-- What the timeout grows by at the next retry. -/
def growth (b : Backoff) : Int :=
  Single.toWord ((Single.ofInt b.timeout).mul b.multiplier)

/-- Counts a retry and tells whether it is allowed. -/
def retry (b : Backoff) (e : RequestError) : Backoff × Bool × List LogRecord :=
  let next := { b with count := b.count + 1, timeout := Word.wrap (b.timeout + b.growth) }
  if next.hasAttemptLeft then (next, true, [])
  else
    (next, false, [⟨.debug, text "No attempt remaining after " ++ Bytes.ofNat b.count.toNat ++
      text " retries, last error: " ++ e.message⟩])

end Backoff

inductive RetryPolicy
  | backoff (b : Backoff)
  /-- A policy that raises a fault whenever it is asked for a retry. -/
  | failing (message : Bytes)
  deriving DecidableEq, Repr

namespace RetryPolicy

def standard : RetryPolicy := .backoff {}

/-- Milliseconds that the next attempt may take. -/
def timeout : RetryPolicy → Int
  | backoff b => b.timeout
  | failing _ => 100

def count : RetryPolicy → UInt32
  | backoff b => b.count
  | failing _ => 0

def retry : RetryPolicy → RequestError → Except Fault (RetryPolicy × Bool × List LogRecord)
  | backoff b, e =>
    let (next, allowed, records) := b.retry e
    .ok (.backoff next, allowed, records)
  | failing message, _ => .error (.logic message)

/-- Retries that the policy may still allow. -/
def left : RetryPolicy → Nat
  | backoff b => b.limit.toNat - b.count.toNat
  | failing _ => 0

end RetryPolicy

/-! ## Lemmas -/

theorem Backoff.count_retry (b : Backoff) (e : RequestError) :
    (b.retry e).1.count = b.count + 1 := by
  unfold Backoff.retry
  simp only
  split <;> rfl

theorem Backoff.limit_retry (b : Backoff) (e : RequestError) :
    (b.retry e).1.limit = b.limit := by
  unfold Backoff.retry
  simp only
  split <;> rfl

theorem Backoff.retry_allows_iff (b : Backoff) (e : RequestError) :
    (b.retry e).2.1 = true ↔ b.count + 1 ≤ b.limit := by
  unfold Backoff.retry Backoff.hasAttemptLeft
  simp only
  split <;> simp_all

end RequestFlow
