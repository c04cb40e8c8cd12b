import RequestFlow.Stream

/-!
# Replies of a transport

What a transport received for an attempt: a status, headers, and a body that is there, still in an
open stream, or absent.  A reply owns its stream until the stream is taken from it; what remains of a
reply that was moved keeps its status, its declared length and whether it had a body.
-/

namespace RequestFlow

structure Reply (σ : Type) where
  status : StatusCode
  headers : List Header := []
  bytes : Option Bytes := none
  stream : Option σ := none
  /-- Declared length of the body, negative when unknown. -/
  length : Int := -1
  deriving DecidableEq, Repr

namespace Reply

variable {σ : Type}

def withoutBody (status : StatusCode) (headers : List Header) : Reply σ := { status, headers }

def ofBytes (status : StatusCode) (headers : List Header) (body : Bytes) : Reply σ :=
  { status, headers, bytes := some body, length := body.length }

def ofStream (status : StatusCode) (headers : List Header) (stream : Option σ)
    (length : Int := -1) : Reply σ :=
  { status, headers, stream, length }

/-- What is left in place of a reply that was moved elsewhere. -/
def moved (r : Reply σ) : Reply σ :=
  { r with headers := [], bytes := r.bytes.map fun _ => [], stream := none }

/-- The body that is there, and the reply without it. -/
def takeBytes (r : Reply σ) : Bytes × Reply σ := (r.bytes.getD [], { r with bytes := none })

/-- The open stream, and the reply without it. -/
def takeStream (r : Reply σ) : Option σ × Reply σ := (r.stream, { r with stream := none })

end Reply

end RequestFlow
