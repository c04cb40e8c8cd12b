import RequestFlow.Config
import RequestFlow.Failure
import RequestFlow.Request

/-!
# Received responses

A response whose body is complete is either delivered or treated as a failed attempt, by its status
alone.  Slow ones are logged, or all of them if the settings say so.
-/

namespace RequestFlow

inductive Reception
  | delivered (response : Response)
  | failed (context : FailureContext)
  deriving DecidableEq, Repr

def receptionRecord (request : Request) (lifetime : Int) (size : Nat) (status : StatusCode) :
    LogRecord :=
  ⟨.info, text "HTTP response for request=<" ++ request.identity ++ text "> [lifetime=" ++
    Bytes.ofInt lifetime ++ text " ms], [size=" ++ Bytes.ofNat size ++ text "], [rc=" ++
    Bytes.ofInt status ++ text "], [retryCount=" ++ Bytes.ofNat request.policy.count.toNat ++
    text "]"⟩

/-- The line on a received body, if it is due. -/
def receptionRecords (config : Config) (request : Request) (lifetime : Int) (size : Nat)
    (status : StatusCode) : List LogRecord :=
  if config.logAll || decide (config.slowThreshold < lifetime) then
    [receptionRecord request lifetime size status]
  else []

/-- Whether a complete response is delivered or failed. -/
def receive (status : StatusCode) (headers : List Header) (body : Bytes) (networkTime : Int) :
    Reception :=
  if StatusCode.isSuccess status then .delivered ⟨status, headers, body, false, networkTime⟩
  else
    .failed
      { failure := ⟨.io, text "unexpected status " ++ Bytes.ofInt status⟩
        response := some ⟨status, headers, some body⟩
        networkTime }

end RequestFlow
