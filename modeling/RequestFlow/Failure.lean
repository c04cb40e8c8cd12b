import RequestFlow.Event

/-!
# Failed attempts

What is known of an attempt that failed: how it failed, what had been received by then, and how
long it had taken.
-/

namespace RequestFlow

inductive FailureKind
  | timeout
  | connectionFailed
  | io
  | malformedUrl
  /-- A kind outside the known ones, by number. -/
  | unlisted (code : Nat)
  deriving DecidableEq, Repr

namespace FailureKind

def label : FailureKind → Bytes
  | timeout => text "timeout"
  | connectionFailed => text "connection failed"
  | io => text "io"
  | malformedUrl => text "malformed url"
  | unlisted _ => text "unknown"

end FailureKind

structure Failure where
  kind : FailureKind := .io
  message : Bytes := []
  deriving DecidableEq, Repr

/-- A response that had been received when the attempt failed. -/
structure Received where
  status : StatusCode
  headers : List Header := []
  /-- Absent when the body could not be read. -/
  body : Option Bytes := none
  deriving DecidableEq, Repr

structure FailureContext where
  failure : Failure
  response : Option Received := none
  /-- Milliseconds from the start of the attempt. -/
  networkTime : Int := 0
  deriving DecidableEq, Repr

end RequestFlow
