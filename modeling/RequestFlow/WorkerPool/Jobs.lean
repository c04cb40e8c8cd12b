import RequestFlow.WorkerPool

/-!
# Jobs for a pool of workers

Jobs that leave their name, submit further jobs and may fail, and the record of what ran.  The record
is that of the schedule in which one worker does all the work; under another schedule the same names
and lines appear in another order.
-/

namespace RequestFlow

inductive Job
  | mk (name : Bytes) (nested : List Job) (fault : Option Bytes)
  deriving Repr

namespace Job

def name : Job → Bytes
  | mk name _ _ => name

def nested : Job → List Job
  | mk _ nested _ => nested

def fault : Job → Option Bytes
  | mk _ _ fault => fault

mutual

/-- The jobs that come of a job, itself included. -/
def weight : Job → Nat
  | mk _ nested _ => 1 + weights nested

def weights : List Job → Nat
  | [] => 0
  | j :: js => j.weight + weights js

end

end Job

/-- A pool at work and the record since the last report. -/
structure JobRun where
  pool : WorkerPool Job
  destroyed : Bool := false
  ran : Array Bytes := #[]
  logs : Array LogRecord := #[]
  deriving Repr

namespace JobRun

/-! ## Algorithm -/

/-- Submits jobs in order until one is refused. -/
def submitAll (p : WorkerPool Job) : List Job → Option Fault × WorkerPool Job
  | [] => (none, p)
  | j :: js =>
    match p.submit j with
    | .error f => (some f, p)
    | .ok p => submitAll p js

/-- What running a job comes to: its nested jobs are submitted, then its own fault is raised. -/
def runJob (p : WorkerPool Job) (j : Job) : Option Fault × WorkerPool Job :=
  match submitAll p j.nested with
  | (some f, p) => (some f, p)
  | (none, p) => (j.fault.map Fault.runtime, p)

/-- Notes a fault that a job let out. -/
def noteFault (r : JobRun) (f : Option Fault) : JobRun :=
  match f with
  | none => r
  | some f =>
    let record := ⟨.error, text "Uncaught exception in ThreadPool task: " ++ f.message⟩
    { r with logs := r.logs.push record }

/-- One job, from its start to its end. -/
def runNext (r : JobRun) : Option JobRun :=
  match r.pool.take 0 with
  | none => none
  | some (job, pool) =>
    let (fault, pool) := runJob pool job
    let r := ({ r with ran := r.ran.push job.name }.noteFault fault)
    (pool.finish 0).map fun pool => { r with pool }

/-- At most `n` jobs. -/
def runSome : Nat → JobRun → JobRun
  | 0, r => r
  | n + 1, r =>
    match r.runNext with
    | none => r
    | some r => runSome n r

/-- All queued jobs and those that come of them. -/
def runAll (r : JobRun) : JobRun := runSome (Job.weights r.pool.queue) r

/-- Submits a job from outside, as long as the pool is there. -/
def submit (r : JobRun) (j : Job) : Except Fault Unit × JobRun :=
  if r.destroyed then (.ok (), r)
  else
    match r.pool.submit j with
    | .error f => (.error f, r)
    | .ok pool => (.ok (), { r with pool })

/-- Stops the pool and lets it run what it has accepted. -/
def destroy (r : JobRun) : JobRun :=
  if r.destroyed then r else { { r with pool := r.pool.stop }.runAll with destroyed := true }

/-- What a job is told that submits to a pool while it stops. -/
def refusedWhileStopping (r : JobRun) : Fault :=
  match r.pool.stop.submit (Job.mk [] [] none) with
  | .error f => f
  | .ok _ => .poolStopping

/-- Destroys the pool from inside one of its jobs, after those that were queued and before the given
ones run. -/
def destroyFromInside (r : JobRun) (jobs : List Job) : JobRun :=
  if r.destroyed then r
  else
    let r := r.runAll
    let (_, pool) := submitAll r.pool jobs
    let record := ⟨.debug, text "ThreadPool destroyed from its own worker, detaching it"⟩
    { r with pool, logs := r.logs.push record }.destroy

/-- The names and lines since the last report. -/
def report (r : JobRun) : List Bytes × List LogRecord × JobRun :=
  (r.ran.toList, r.logs.toList, { r with ran := #[], logs := #[] })

end JobRun

end RequestFlow
