/-!
# Status codes

The classes of a response's status code.  Three hundreds are in no class.
-/

namespace RequestFlow

abbrev StatusCode := Int

namespace StatusCode

def notModified : StatusCode := 304

def unauthorized : StatusCode := 401

def forbidden : StatusCode := 403

def isSuccess (code : StatusCode) : Bool := 200 ≤ code && code ≤ 299

def isClientError (code : StatusCode) : Bool := 400 ≤ code && code ≤ 499

def isServerError (code : StatusCode) : Bool := 500 ≤ code && code ≤ 599

end StatusCode

end RequestFlow
