import RequestFlow.Network.Session

/-!
# Threads at work on a network

Callers, transports and executors work one network from threads of their own.  A thread is a machine
without its world; all threads share one world, and one step of the whole is one step of one thread.
A step of a machine touches a call's count of attempts, an attempt's mark, or a call's mark of
completion at most once, so every order in which threads can meet there is a run.

Everything outside the network is free: which requests, scripts, settings, clocks and pools there
are, what a classifier answers, when an executor takes or refuses a task, which attempt a transport
resolves and how often.  What has happened is kept in `past`, as the machines that took the steps.

    a machine that runs by itself is a run of one thread              (Reachable.run)
-/

namespace RequestFlow

/-- What one thread does now, and what waits for that. -/
structure Thread where
  control : Control
  stack : List Frame

/-- The thread as a machine over the world. -/
def Thread.on (t : Thread) (w : World) : Machine := ⟨w, t.control, t.stack⟩

@[simp]
theorem Thread.on_world (t : Thread) (w : World) : (t.on w).world = w := rfl

def Machine.thread (m : Machine) : Thread := ⟨m.control, m.stack⟩

namespace World

/-- The tasks that wait on the executor. -/
def queued (w : World) : List CopyTask :=
  match w.executor with
  | none => []
  | some e => e.queue

/-- The executor takes a task for later or refuses it, as executors have to. -/
def InOrder (w : World) : Prop := ∀ e, w.executor = some e → e.mode = .queue

/-- Nothing was performed yet. -/
structure Fresh (w : World) : Prop where
  calls : w.calls = #[]
  attempts : w.attempts = #[]
  trace : w.trace = #[]
  queued : w.queued = []
  inOrder : w.InOrder

end World

/-- What others may do to the world between two steps: they leave alone the calls, the attempts and
what was told so far, and they neither lose nor invent a task. -/
structure Meanwhile (w w' : World) : Prop where
  calls : w'.calls = w.calls
  attempts : w'.attempts = w.attempts
  trace : ∃ records, w'.trace = w.trace.addLogs records
  queued : w'.queued.Perm w.queued
  inOrder : w'.InOrder

/-- What a thread may begin with. -/
inductive Arrival (w : World) : Thread → Prop
  | perform (p : Performance) : Arrival w ⟨.run (.perform p), []⟩
  /-- The transport takes a turn for an attempt, be it resolved already or not. -/
  | turn (a : Nat) (t : Turn) (answer : Answer) (h : a < w.attempts.size) :
    Arrival w ⟨.run (.turn a t), [.answering answer]⟩
  | runQueue : Arrival w ⟨.run (.runQueue 0), []⟩
  | serve : Arrival w ⟨.run .serve, []⟩

/-- A step of a machine, or any answer of a classifier. -/
inductive Machine.Moves : Machine → Machine → Prop
  | step (m : Machine) : Moves m m.step
  | judge (w : World) (c : Nat) (context : FailureContext) (answer : Except Fault Decision)
    (stack : List Frame) :
    Moves ⟨w, .run (.fail c context), stack⟩
      ⟨w, .run (.settle c context.networkTime answer), stack⟩

/-- A world, the threads at work on it, and the machines that took the steps, the latest first. -/
structure Network where
  world : World
  threads : List Thread := []
  past : List Machine := []

namespace Network

inductive Step : Network → Network → Prop
  | move (w : World) (l : List Thread) (t : Thread) (r : List Thread) (past : List Machine)
    (m : Machine) (h : (t.on w).Moves m) :
    Step ⟨w, l ++ t :: r, past⟩ ⟨m.world, l ++ m.thread :: r, t.on w :: past⟩
  | arrive (s : Network) (t : Thread) (h : Arrival s.world t) :
    Step s { s with threads := t :: s.threads }
  | meanwhile (s : Network) (w : World) (h : Meanwhile s.world w) : Step s { s with world := w }

inductive Reachable : Network → Prop
  | start (w : World) (h : w.Fresh) : Reachable { world := w }
  | step {s s' : Network} (h : Reachable s) (hs : Step s s') : Reachable s'

/-! ## Lemmas -/

/-- The machines that `n` steps of a machine start from, the latest first. -/
def trail : Nat → Machine → List Machine
  | 0, _ => []
  | n + 1, m => if m.isIdle then [] else trail n m.step ++ [m]

/-- What each step of a machine preserves is preserved while the machine runs. -/
theorem run_induction {P : Network → Prop} {l r : List Thread}
    (step : ∀ (past : List Machine) (m : Machine), P ⟨m.world, l ++ m.thread :: r, past⟩ →
      P ⟨m.step.world, l ++ m.step.thread :: r, m :: past⟩)
    {past : List Machine} (n : Nat) (m : Machine) (h : P ⟨m.world, l ++ m.thread :: r, past⟩) :
    P ⟨(Machine.run n m).world, l ++ (Machine.run n m).thread :: r, trail n m ++ past⟩ := by
  induction n generalizing m past with
  | zero => exact h
  | succ n ih =>
    unfold Machine.run trail
    split
    · exact h
    · have := ih m.step (step past m h)
      rwa [List.append_assoc, List.singleton_append]

theorem Reachable.run {l r : List Thread} {past : List Machine} (n : Nat) (m : Machine)
    (h : Reachable ⟨m.world, l ++ m.thread :: r, past⟩) :
    Reachable ⟨(Machine.run n m).world, l ++ (Machine.run n m).thread :: r, trail n m ++ past⟩ :=
  run_induction (fun past m h => h.step (.move m.world l m.thread r past m.step (.step m))) n m h

/-- The network after a machine has worked alone in it for at most `n` steps. -/
def alone (n : Nat) (m : Machine) : Network :=
  ⟨(Machine.run n m).world, [(Machine.run n m).thread], trail n m⟩

theorem Reachable.alone {w : World} (h : w.Fresh) (p : Performance) (n : Nat) :
    Reachable (alone n (Machine.doing w (.perform p) [])) := by
  have first : Reachable ⟨w, [⟨.run (.perform p), []⟩], []⟩ :=
    (Reachable.start w h).step (.arrive _ _ (.perform p))
  have := Reachable.run (l := []) (r := []) n (Machine.doing w (.perform p) []) first
  rwa [List.append_nil] at this

end Network

/-! ## Sessions -/

namespace World

/-- The machines that the worker's steps start from, the latest first. -/
def serveTrail (w : World) : List Machine :=
  match w.executor with
  | none => []
  | some e =>
    if e.hasWorker then Network.trail (w.budget 0) (Machine.doing w .serve []) else []

/-- The machines that the steps of an operation start from, the latest first. -/
def trailOf (w : World) (op : Operation) : List Machine :=
  (Machine.run (w.budget op.performs) (w.begin op)).world.serveTrail ++
    Network.trail (w.budget op.performs) (w.begin op)

/-- The machines that the steps of a session start from, the latest first. -/
def trailAll (w : World) : List Operation → List Machine
  | [] => []
  | op :: ops => trailAll (w.apply op).2 ops ++ w.trailOf op

end World

end RequestFlow
