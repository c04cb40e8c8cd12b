import RequestFlow.Event

/-!
# A pool of workers

A fixed number of workers and one queue.  A task is accepted at the back of the queue unless the pool
is stopping; an idle worker takes the task at the front, and the task counts as active until that
worker has finished it; a worker leaves only when the pool is stopping and nothing is queued.  Each
function here is one step that no other step can come in between.
-/

namespace RequestFlow

inductive Worker (τ : Type)
  | idle
  | busy (task : τ)
  | gone
  deriving DecidableEq, Repr

structure WorkerPool (τ : Type) where
  workers : List (Worker τ)
  queue : List τ := []
  /-- Tasks that were taken and are not finished. -/
  active : Nat := 0
  stopping : Bool := false
  deriving Repr

namespace WorkerPool

variable {τ : Type}

/-! ## Steps -/

def defaultThreads : Nat := 4

def make (threads : Nat) : Except Fault (WorkerPool τ) :=
  if threads = 0 then .error .noThreads else .ok { workers := List.replicate threads .idle }

def submit (p : WorkerPool τ) (task : τ) : Except Fault (WorkerPool τ) :=
  if p.stopping then .error .poolStopping else .ok { p with queue := p.queue ++ [task] }

/-- Worker `i` takes the task at the front. -/
def take (p : WorkerPool τ) (i : Nat) : Option (τ × WorkerPool τ) :=
  match p.workers[i]?, p.queue with
  | some .idle, task :: rest =>
    some (task, { p with
      workers := p.workers.set i (.busy task), queue := rest, active := p.active + 1 })
  | _, _ => none

/-- Worker `i` has finished its task. -/
def finish (p : WorkerPool τ) (i : Nat) : Option (WorkerPool τ) :=
  match p.workers[i]? with
  | some (.busy _) => some { p with workers := p.workers.set i .idle, active := p.active - 1 }
  | _ => none

def stop (p : WorkerPool τ) : WorkerPool τ := { p with stopping := true }

/-- Worker `i` leaves. -/
def leave (p : WorkerPool τ) (i : Nat) : Option (WorkerPool τ) :=
  match p.workers[i]?, p.queue with
  | some .idle, [] => if p.stopping then some { p with workers := p.workers.set i .gone } else none
  | _, _ => none

/-- What a caller waits for: nothing is queued and nothing is active. -/
def isSettled (p : WorkerPool τ) : Bool := p.queue.isEmpty && p.active == 0

/-! ## Lemmas -/

theorem submit_eq_error_iff (p : WorkerPool τ) (task : τ) :
    p.submit task = .error .poolStopping ↔ p.stopping = true := by
  unfold submit
  split <;> simp_all

theorem take_eq_some {p q : WorkerPool τ} {i : Nat} {task : τ} (h : p.take i = some (task, q)) :
    p.queue = task :: q.queue ∧ q.active = p.active + 1 := by
  unfold take at h
  split at h
  · rename_i hq
    simp only [Option.some.injEq, Prod.mk.injEq] at h
    obtain ⟨rfl, rfl⟩ := h
    exact ⟨hq, rfl⟩
  · cases h

end WorkerPool

end RequestFlow
