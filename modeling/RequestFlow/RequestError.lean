import RequestFlow.Response

/-!
# Request errors

The final failure of a request, as it is handed to the caller: its kind, the details that were
known, and the response it came from when there was one.
-/

namespace RequestFlow

inductive ErrorKind
  | authFailure
  | badUrl
  | client
  | network
  | noConnection
  | server
  | timeout
  /-- A kind outside the known ones, by number. -/
  | unlisted (code : Nat)
  deriving DecidableEq, Repr

namespace ErrorKind

def label : ErrorKind → Bytes
  | authFailure => text "auth failure"
  | badUrl => text "bad url"
  | client => text "client error"
  | network => text "network error"
  | noConnection => text "no connection"
  | server => text "server error"
  | timeout => text "timeout"
  | unlisted _ => text "unknown error"

end ErrorKind

structure RequestError where
  kind : ErrorKind
  details : Bytes := []
  response : Option Response := none
  networkTime : Int := 0
  deriving DecidableEq, Repr

namespace RequestError

/-- The label of the kind, the status of the response in parentheses, and the details after a colon;
what is missing is left out. -/
def fullText (e : RequestError) : Bytes :=
  e.kind.label ++
    (match e.response with
      | none => []
      | some r => text " (status " ++ Bytes.ofInt r.status ++ text ")") ++
    (if e.details.isEmpty then [] else text ": " ++ e.details)

/-- The text a reader of the error is shown, up to its first zero byte. -/
def message (e : RequestError) : Bytes := Bytes.upToNul e.fullText

def status? (e : RequestError) : Option StatusCode := e.response.map Response.status

end RequestError

end RequestFlow
