import RequestFlow.CacheEntry
import RequestFlow.RetryPolicy

/-!
# Requests

A request is what the caller wants done, with the retry policy that its attempts use up and the
markers they leave.  `markers` lists these in the order they were added.

    (r.addMarker m).1.markers = r.markers ++ [m]       (markers_addMarker)
-/

namespace RequestFlow

structure Request where
  url : Bytes
  method : Bytes
  headers : List Header := []
  body : Bytes := []
  cache : Option CacheEntry := none
  policy : RetryPolicy := RetryPolicy.standard
  retryServerErrors : Bool := false
  retryConnectionErrors : Bool := false
  /-- The markers, the latest first. -/
  history : List Bytes := []
  deriving DecidableEq, Repr

namespace Request

/-! ## Algorithm -/

def defaultMethod : Bytes := text "GET"

def make (url : Bytes) (method : Bytes := defaultMethod) : Except Fault Request :=
  if url.isEmpty then .error .emptyUrl
  else if method.isEmpty then .error .emptyMethod
  else .ok { url, method }

/-- How log lines name the request. -/
def identity (r : Request) : Bytes := r.method ++ text " " ++ r.url

/-- A log line about the request. -/
def logLine (r : Request) (level : Level) (message : Bytes) : LogRecord :=
  ⟨level, text "[" ++ r.identity ++ text "] " ++ message⟩

def addHeader (r : Request) (name value : Bytes) : Except Fault Request :=
  (Header.ofPair name value).map fun h => { r with headers := r.headers ++ [h] }

def markers (r : Request) : List Bytes := r.history.reverse

def addMarker (r : Request) (marker : Bytes) : Request × LogRecord :=
  ({ r with history := marker :: r.history }, r.logLine .debug marker)

def timeout (r : Request) : Int := r.policy.timeout

/-- Replaces the policy; without one the standard policy starts anew. -/
def setPolicy (r : Request) (policy : Option RetryPolicy) : Request :=
  { r with policy := policy.getD RetryPolicy.standard }

/-- Asks the policy for a retry. -/
def retry (r : Request) (e : RequestError) : Except Fault (Request × Bool × List LogRecord) :=
  (r.policy.retry e).map fun (policy, allowed, records) => ({ r with policy }, allowed, records)

/-! ## Lemmas -/

theorem make_eq_ok_iff (url method : Bytes) (r : Request) :
    make url method = .ok r ↔ url ≠ [] ∧ method ≠ [] ∧ { url, method } = r := by
  cases url with
  | nil => simp [make]
  | cons u us =>
    cases method with
    | nil => simp [make]
    | cons m ms => simp [make]

theorem markers_addMarker (r : Request) (marker : Bytes) :
    (r.addMarker marker).1.markers = r.markers ++ [marker] := by
  simp [addMarker, markers]

end Request

end RequestFlow
