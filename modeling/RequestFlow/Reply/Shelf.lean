import RequestFlow.Reply

/-!
# Named replies

Replies under names, and streams taken from them.  A reply that is replaced, overwritten or destroyed
closes the stream it owns; a stream that was taken is closed only when that is asked for.
-/

namespace RequestFlow

/-- A stream known by a name. -/
structure NamedStream where
  name : Bytes
  closeFails : Bool
  deriving DecidableEq, Repr

structure Shelf where
  /-- Sorted by name. -/
  replies : List (Bytes × Reply NamedStream) := []
  held : List (Bytes × NamedStream) := []
  deriving Repr

namespace Shelf

/-! ## Algorithm -/

inductive Action
  | place (slot : Bytes) (reply : Reply NamedStream)
  | move (source target : Bytes)
  | assign (source target : Bytes)
  | takeBytes (slot : Bytes)
  | takeStream (slot : Bytes)
  | closeHeld (slot : Bytes)
  | destroy (slot : Bytes)
  deriving DecidableEq, Repr

inductive Event
  | closed (stream : Bytes)
  | gone (stream : Bytes)
  | log (record : LogRecord)
  deriving DecidableEq, Repr

inductive Answer
  | nothing
  | bytes (b : Bytes)
  | flag (b : Bool)
  deriving DecidableEq, Repr

/-- Closing a stream, and then doing away with it. -/
def discard (s : NamedStream) : List Event :=
  let f := if s.closeFails then some (Fault.runtime (text "close failed")) else none
  .closed s.name :: (closeRecords f).map .log ++ [.gone s.name]

def discardStream (s : Option NamedStream) : List Event :=
  match s with
  | none => []
  | some s => discard s

def insert (slot : Bytes) (r : Reply NamedStream) :
    List (Bytes × Reply NamedStream) → List (Bytes × Reply NamedStream)
  | [] => [(slot, r)]
  | e :: rest =>
    if slot == e.1 then (slot, r) :: rest
    else if Bytes.precedes slot e.1 then (slot, r) :: e :: rest
    else e :: insert slot r rest

def find? (s : Shelf) (slot : Bytes) : Option (Reply NamedStream) := s.replies.lookup slot

def put (s : Shelf) (slot : Bytes) (r : Reply NamedStream) : Shelf :=
  { s with replies := insert slot r s.replies }

/-- The stream that the reply under a name owns. -/
def streamAt (s : Shelf) (slot : Bytes) : Option NamedStream :=
  (s.find? slot).bind Reply.stream

def act (s : Shelf) : Action → Answer × List Event × Shelf
  | .place slot reply => (.nothing, discardStream (s.streamAt slot), s.put slot reply)
  | .move source target =>
    match s.find? source with
    | none => (.nothing, [], s)
    | some r =>
      let emptied := s.put source r.moved
      (.nothing, discardStream (emptied.streamAt target), emptied.put target r)
  | .assign source target =>
    match s.find? source with
    | none => (.nothing, [], s)
    | some r =>
      if source == target then (.nothing, [], s)
      else (.nothing, discardStream (s.streamAt target), (s.put source r.moved).put target r)
  | .takeBytes slot =>
    match s.find? slot with
    | none => (.nothing, [], s)
    | some r =>
      let (bytes, rest) := r.takeBytes
      (.bytes bytes, [], s.put slot rest)
  | .takeStream slot =>
    match s.find? slot with
    | none => (.nothing, [], s)
    | some r =>
      match r.takeStream with
      | (none, _) => (.flag false, [], s)
      | (some stream, rest) =>
        let lost := match s.held.lookup slot with
          | none => []
          | some old => [Event.gone old.name]
        (.flag true, lost,
          { s.put slot rest with held := (slot, stream) :: s.held.filter (·.1 != slot) })
  | .closeHeld slot =>
    match s.held.lookup slot with
    | none => (.nothing, [], s)
    | some stream =>
      (.nothing, discard stream, { s with held := s.held.filter (·.1 != slot) })
  | .destroy slot =>
    (.nothing, discardStream (s.streamAt slot),
      { s with replies := s.replies.filter (·.1 != slot) })

/-- What happens when all replies are destroyed, in the order of their names. -/
def destroyAll (s : Shelf) : List Event := s.replies.flatMap fun e => discardStream e.2.stream

end Shelf

end RequestFlow
