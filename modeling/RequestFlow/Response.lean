import RequestFlow.Header
import RequestFlow.Status

/-!
# Responses

A finished response, as it is handed to the caller.  Times are milliseconds.
-/

namespace RequestFlow

structure Response where
  status : StatusCode
  headers : List Header
  body : Bytes
  /-- The server answered that the cached response still holds. -/
  notModified : Bool
  /-- The time of the attempt that brought the response. -/
  networkTime : Int
  deriving DecidableEq, Repr

end RequestFlow
