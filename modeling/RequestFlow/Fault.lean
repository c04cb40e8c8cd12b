import RequestFlow.Template

/-!
# Faults

What can go wrong, by cause.  A fault has a kind and a text; the library's own texts hold at most
`longestText` bytes, a longer one being cut and ended by three dots, and every text stops at its
first zero byte.

    (clip t).length ≤ longestText                              (length_clip_le)
    0 ∉ f.message                                              (Fault.zero_not_mem_message)
-/

namespace RequestFlow

/-! ## Algorithm -/

/-- The family a fault belongs to. -/
inductive FaultKind
  | invalidArgument
  | refusal
  | outOfMemory
  | runtime
  | logic
  deriving DecidableEq, Repr

inductive Fault
  /-- A byte array was asked for that is larger than any allocation. -/
  | outOfMemory
  | headerName
  | headerValue
  | emptyUrl
  | emptyMethod
  | negativeTimeout (milliseconds : Int)
  | negativeMultiplier
  | negativeThreshold
  | emptyBodyBuffer
  | noTransport
  | noRequest
  | noThreads
  | noExecutor
  | executorGone
  | executorRefuses
  | poolStopping
  /-- A fault with a text of its own, about an argument or not. -/
  | stated (argument : Bool) (text : Bytes)
  /-- A fault raised by a collaborator while it ran. -/
  | runtime (message : Bytes)
  /-- A fault raised by a collaborator used against its rules. -/
  | logic (message : Bytes)
  deriving DecidableEq, Repr

def longestText : Nat := 87

/-- Cuts a text longer than `longestText` and ends it by three dots. -/
def clip (t : Bytes) : Bytes :=
  if t.length ≤ longestText then t else t.take (longestText - 3) ++ text "..."

namespace Fault

def kind : Fault → FaultKind
  | outOfMemory => .outOfMemory
  | headerName | headerValue | emptyUrl | emptyMethod | negativeTimeout _ | negativeMultiplier
  | negativeThreshold | emptyBodyBuffer | noTransport | noRequest | noThreads => .invalidArgument
  | noExecutor | executorGone | executorRefuses | poolStopping => .refusal
  | stated argument _ => if argument then .invalidArgument else .refusal
  | runtime _ => .runtime
  | logic _ => .logic

/-- The text as it was written, neither clipped nor stopped. -/
def fullText : Fault → Bytes
  | outOfMemory => text "std::bad_alloc"
  | headerName => text "HTTP header name is invalid"
  | headerValue => text "HTTP header value is invalid"
  | emptyUrl => text "Request url should not be empty"
  | emptyMethod => text "Request method should not be empty"
  | negativeTimeout ms =>
    text "Retry policy timeout should be non negative, got " ++ Bytes.ofInt ms ++ text " ms"
  | negativeMultiplier => text "Retry policy backoff multiplier should be non negative"
  | negativeThreshold => text "slowRequestThreshold must be >= 0"
  | emptyBodyBuffer => text "defaultBodyBufferSize must be > 0"
  | noTransport => text "AsyncNetwork needs a transport"
  | noRequest => text "Cannot perform a null request"
  | noThreads => text "ThreadPool needs at least one thread"
  | noExecutor => text "AsyncNetwork blocking executor must be set before performing requests"
  | executorGone => text "Blocking executor has been destroyed"
  | executorRefuses => text "ManualExecutor refuses new tasks"
  | poolStopping => text "ThreadPool is stopping, cannot accept new tasks"
  | stated _ t => t
  | runtime t => t
  | logic t => t

/-- The text a reader of the fault is shown. -/
def message (f : Fault) : Bytes :=
  match f.kind with
  | .invalidArgument | .refusal => Bytes.upToNul (clip f.fullText)
  | _ => Bytes.upToNul f.fullText

/-- A fault whose text is a filled template. -/
def ofTemplate (argument : Bool) (template : Bytes) (args : List Bytes) : Fault :=
  stated argument (Template.fill template args)

end Fault

/-! ## Lemmas -/

theorem length_clip_le (t : Bytes) : (clip t).length ≤ longestText := by
  unfold clip
  split
  · assumption
  · have : (text "...").length = 3 := by decide
    simp only [List.length_append, List.length_take, this, longestText]
    omega

theorem Fault.zero_not_mem_message (f : Fault) : (0 : UInt8) ∉ f.message := by
  unfold Fault.message
  split <;> exact Bytes.zero_not_mem_upToNul _

end RequestFlow
