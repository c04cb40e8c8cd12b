import RequestFlow.Failure
import RequestFlow.Request

/-!
# Categories of failures

Every failed attempt becomes a request error, which is either final or a candidate for a retry.
The category depends on the request's two retry flags and its url alone, and changes nothing.

    the error is the same whatever the flags                   (error_categorize)
-/

namespace RequestFlow

/-- Why an attempt is tried again. -/
inductive RetryReason
  | socket
  | connection
  | network
  | auth
  | server
  | custom
  deriving DecidableEq, Repr

namespace RetryReason

def label : RetryReason → Bytes
  | socket => text "socket"
  | connection => text "connection"
  | network => text "network"
  | auth => text "auth"
  | server => text "server"
  | custom => text "custom"

end RetryReason

inductive Category
  | final (error : RequestError)
  | candidate (reason : RetryReason) (error : RequestError)
  deriving DecidableEq, Repr

namespace Category

/-! ## Algorithm -/

def error : Category → RequestError
  | final e => e
  | candidate _ e => e

def isCandidate : Category → Bool
  | final _ => false
  | candidate _ _ => true

/-- A candidate where retrying is switched on, final where it is not. -/
def candidateIf (on : Bool) (reason : RetryReason) (error : RequestError) : Category :=
  if on then candidate reason error else final error

end Category

/-- The category of a response received in full. -/
def categorizeStatus (request : Request) (response : Response) : Category :=
  let error (kind : ErrorKind) : RequestError :=
    { kind, response := some response, networkTime := response.networkTime }
  if response.status = StatusCode.unauthorized ∨ response.status = StatusCode.forbidden then
    .candidate .auth (error .authFailure)
  else if StatusCode.isClientError response.status then .final (error .client)
  else if StatusCode.isServerError response.status then
    Category.candidateIf request.retryServerErrors .server (error .server)
  else .final (error .server)

/-- The category of a failure that is neither a timeout nor a refused url. -/
def categorizeReceived (request : Request) (context : FailureContext) : Category :=
  match context.response with
  | none =>
    Category.candidateIf request.retryConnectionErrors .connection
      { kind := .noConnection, details := context.failure.message,
        networkTime := context.networkTime }
  | some received =>
    match received.body with
    | none =>
      .candidate .network
        { kind := .network, details := context.failure.message, networkTime := context.networkTime }
    | some body =>
      categorizeStatus request ⟨received.status, received.headers, body, false, context.networkTime⟩

def categorize (request : Request) (context : FailureContext) : Category :=
  match context.failure.kind with
  | .timeout =>
    .candidate .socket
      { kind := .timeout, details := context.failure.message, networkTime := context.networkTime }
  | .malformedUrl =>
    .final
      { kind := .badUrl, details := request.url ++ text ": " ++ context.failure.message,
        networkTime := context.networkTime }
  | _ => categorizeReceived request context

/-! ## Lemmas -/

theorem Category.error_candidateIf (on : Bool) (reason : RetryReason) (e : RequestError) :
    (candidateIf on reason e).error = e := by
  cases on <;> rfl

theorem error_categorize (r : Request) (server connection : Bool) (context : FailureContext) :
    (categorize { r with retryServerErrors := server, retryConnectionErrors := connection }
      context).error = (categorize r context).error := by
  unfold categorize
  split
  · rfl
  · rfl
  · unfold categorizeReceived
    split
    · simp [Category.error_candidateIf]
    · split
      · rfl
      · unfold categorizeStatus
        simp only
        split
        · rfl
        · split
          · rfl
          · split
            · simp [Category.error_candidateIf]
            · rfl

end RequestFlow
