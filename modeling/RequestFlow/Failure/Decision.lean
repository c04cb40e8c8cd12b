import RequestFlow.Failure.Category

/-!
# Decisions on failures

A classifier decides whether a failed attempt ends its request or is tried again.  The standard one
takes the category of the failure and lets the request's policy have the last word on candidates; it
leaves a marker with the timeout that the attempt had.  A scripted one gives fixed answers.
-/

namespace RequestFlow

inductive Decision
  | final (error : RequestError)
  | retry (reason : RetryReason)
  deriving DecidableEq, Repr

inductive Classifier
  | standard
  /-- Retries as often as it still has retries left, then gives a network error. -/
  | granting (left : Nat)
  | raising (message : Bytes)
  deriving DecidableEq, Repr

/-! ## Algorithm -/

def retryMarker (reason : RetryReason) (timeout : Int) : Bytes :=
  reason.label ++ text "-retry [timeout=" ++ Bytes.ofInt timeout ++ text "]"

def giveUpMarker (reason : RetryReason) (timeout : Int) : Bytes :=
  reason.label ++ text "-timeout-giveup [timeout=" ++ Bytes.ofInt timeout ++ text "]"

/-- What a classifier did: its answer, the request after it, and what it logged. -/
structure Verdict where
  answer : Except Fault Decision
  request : Request
  records : List LogRecord
  deriving Repr

/-- The policy's word on a candidate. -/
def settleCandidate (request : Request) (reason : RetryReason) (error : RequestError) : Verdict :=
  match request.retry error with
  | .error f => ⟨.error f, request, []⟩
  | .ok (next, allowed, records) =>
    if allowed then
      let (marked, record) := next.addMarker (retryMarker reason request.timeout)
      ⟨.ok (.retry reason), marked, records ++ [record]⟩
    else
      let (marked, record) := next.addMarker (giveUpMarker reason request.timeout)
      ⟨.ok (.final error), marked, records ++ [record]⟩

/-- The line on the response that a failed attempt had received. -/
def receivedRecords (request : Request) (context : FailureContext) : List LogRecord :=
  match context.response with
  | none => []
  | some received =>
    [⟨.error, text "Unexpected response code " ++ Bytes.ofInt received.status ++ text " for " ++
      request.url⟩]

def classify (request : Request) (context : FailureContext) : Verdict :=
  let records := receivedRecords request context
  match categorize request context with
  | .final error => ⟨.ok (.final error), request, records⟩
  | .candidate reason error =>
    let v := settleCandidate request reason error
    { v with records := records ++ v.records }

namespace Classifier

/-- The verdict, and the classifier for the next failure. -/
def judge (c : Classifier) (request : Request) (context : FailureContext) : Verdict × Classifier :=
  match c with
  | standard => (classify request context, standard)
  | granting (n + 1) => (⟨.ok (.retry .custom), request, []⟩, granting n)
  | granting 0 =>
    (⟨.ok (.final { kind := .network, details := context.failure.message }), request, []⟩,
      granting 0)
  | raising message => (⟨.error (.runtime message), request, []⟩, raising message)

/-- Retries that the classifier may still grant by itself. -/
def left : Classifier → Nat
  | granting n => n
  | _ => 0

end Classifier

end RequestFlow
