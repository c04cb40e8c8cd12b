import RequestFlow.Buffer.BestFit

/-!
# Clients of a pool

Buffers of one best-fit pool in the hands of named clients.  A client holds a buffer either as its
owner, or on a lease that gives it back when it ends.
-/

namespace RequestFlow

structure Holdings where
  pool : BestFit := {}
  owned : List (Bytes × Buffer) := []
  leased : List (Bytes × Buffer) := []
  deriving Repr

namespace Holdings

/-! ## Algorithm -/

inductive Action
  /-- Lends a buffer that the client owns from then on. -/
  | lease (client : Bytes) (size : Nat)
  /-- Gives an owned buffer to the pool. -/
  | release (client : Bytes)
  /-- Gives a new buffer to the pool. -/
  | put (size : Nat)
  /-- Gives nothing to the pool. -/
  | putNothing
  /-- Ends the lease that the client has, and opens a new one. -/
  | openLease (client : Bytes) (size : Nat)
  | write (client : Bytes) (data : Bytes)
  | grow (client : Bytes) (size keep : Nat)
  | closeLease (client : Bytes)
  deriving DecidableEq, Repr

inductive Answer
  | nothing
  | number (id : Nat)
  | buffer (id capacity : Nat)
  | grown (id capacity : Nat) (front : Bytes)
  deriving DecidableEq, Repr

/-- The list with the client's entry removed. -/
def without (client : Bytes) (l : List (Bytes × Buffer)) : List (Bytes × Buffer) :=
  l.filter fun e => e.1 != client

def find? (client : Bytes) (l : List (Bytes × Buffer)) : Option Buffer := l.lookup client

/-- Frees the buffer that a client owned, if any. -/
def freeOwned (h : Holdings) (client : Bytes) : Holdings :=
  match find? client h.owned with
  | none => h
  | some b => { h with pool := h.pool.free b, owned := without client h.owned }

/-- Ends the lease of a client, if any. -/
def endLease (h : Holdings) (client : Bytes) : Holdings :=
  match find? client h.leased with
  | none => h
  | some b => { h with pool := h.pool.release b, leased := without client h.leased }

def act (h : Holdings) : Action → Except Fault Answer × Holdings
  | .lease client size =>
    match h.pool.lease size with
    | (.error f, pool) => (.error f, { h with pool })
    | (.ok b, pool) =>
      let h := freeOwned { h with pool } client
      (.ok (.buffer b.id b.capacity), { h with owned := (client, b) :: h.owned })
  | .release client =>
    match find? client h.owned with
    | none => (.ok .nothing, h)
    | some b =>
      (.ok .nothing, { h with pool := h.pool.release b, owned := without client h.owned })
  | .put size =>
    match h.pool.put size with
    | (.error f, pool) => (.error f, { h with pool })
    | (.ok id, pool) => (.ok (.number id), { h with pool })
  | .putNothing => (.ok .nothing, h)
  | .openLease client size =>
    let h := endLease h client
    match h.pool.lease size with
    | (.error f, pool) => (.error f, { h with pool })
    | (.ok b, pool) =>
      (.ok (.buffer b.id b.capacity), { h with pool, leased := (client, b) :: h.leased })
  | .write client data =>
    match find? client h.leased with
    | none => (.ok .nothing, h)
    | some b =>
      (.ok .nothing, { h with leased := (client, b.write 0 data) :: without client h.leased })
  | .grow client size keep =>
    match find? client h.leased with
    | none => (.ok .nothing, h)
    | some b =>
      match BufferPool.grow h.pool b size keep with
      | (.error f, pool) => (.error f, { h with pool })
      | (.ok larger, pool) =>
        (.ok (.grown larger.id larger.capacity (larger.front keep)),
          { h with pool, leased := (client, larger) :: without client h.leased })
  | .closeLease client => (.ok .nothing, endLease h client)

/-- The buffers freed since the last report, and the holdings with an empty report. -/
def reportFreed (h : Holdings) : List Nat × Holdings :=
  (h.pool.freed, { h with pool := { h.pool with freed := [] } })

end Holdings

end RequestFlow
