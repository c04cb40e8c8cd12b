import RequestFlow.Proofs.Bodies
import RequestFlow.Proofs.Closing

/-!
# How a step carries streams

A stream comes with an outcome and is passed on from there: to the frame that closes it in any case,
or to a task, to the executor's queue and to the copy of the task, which closes it.  A step passes
on one stream at most; `Carries` has all that a step can do with one.

    every step of a machine carries streams in one of these ways               (Moves.carries)
-/

namespace RequestFlow

/-! ## Streams in hand -/

namespace Event

/-- The event is a read of the stream. -/
def reads (i : Nat) : Event → Bool
  | .read s _ _ | .readFault s _ _ => s == i
  | _ => false

/-- The event is a read or a close. -/
def isOfStream : Event → Bool
  | .read .. | .readFault .. | .close _ => true
  | _ => false

end Event

namespace Outcome

/-- The body of a reply is there or in a stream, but not both. -/
def Proper {σ : Type} : Outcome σ → Prop
  | reply r => r.bytes = none ∨ r.stream = none
  | _ => True

end Outcome

def Turn.Proper (t : Turn) : Prop := ∀ d ∈ t.deliveries, d.outcome.Proper

/-- The stream of an outcome or a body that the control passes on. -/
def Control.passing? : Control → Option Stream
  | .run (.deliver _ o) => o.stream?
  | .run (.schedule k) => some k.stream
  | _ => none

/-- The stream of the body that is copied next. -/
def Control.copying? : Control → Option Stream
  | .run (.copy k) => some k.stream
  | _ => none

/-- No stream is in hand. -/
def Control.Empty (c : Control) : Prop := c.passing? = none ∧ c.copying? = none

/-- The stream that the frame closes. -/
def Frame.stream? : Frame → Option Stream
  | .holding x => some x
  | _ => none

def Frame.Proper : Frame → Prop
  | .turn _ t => t.Proper
  | _ => True

def Control.Proper : Control → Prop
  | .run (.turn _ t) => t.Proper
  | .run (.deliver _ o) => o.Proper
  | _ => True

/-- Only events that concern no stream were added to the trace. -/
def World.Aside (w w' : World) : Prop :=
  ∃ events, w'.trace.toList = w.trace.toList ++ events ∧ ∀ e ∈ events, e.isOfStream = false

/-- A stream was closed, after the given events. -/
def World.Closes (i : Nat) (before : List Event) (w w' : World) : Prop :=
  ∃ after, w'.trace.toList = w.trace.toList ++ (before ++ .close i :: after) ∧
    ∀ e ∈ after, e.isOfStream = false

/-- The executor will not take a task. -/
def World.Declines (w : World) : Prop :=
  ∀ e, w.executor = some e → e.isAlive = true →
    e.refusing = true ∧ (e.mode = .queue ∨ e.mode = .queueThenFail)

/-- The stacks differ above a part of both, and in no frame that closes a stream. -/
def SameHeld (stack stack' : List Frame) : Prop :=
  ∃ p p' rest, stack = p ++ rest ∧ stack' = p' ++ rest ∧ (∀ f ∈ p, f.stream? = none) ∧
    ∀ f ∈ p', f.stream? = none

namespace Machine

/-- Scripts and turns have replies with one body at most. -/
structure Proper (m : Machine) : Prop where
  script : ∀ t ∈ m.world.transport.script, t.Proper
  control : m.control.Proper
  stack : ∀ f ∈ m.stack, f.Proper

/-- The stream is not to be read: its outcome comes too late or says that nothing has changed, or no
executor takes its body. -/
inductive TurnsDown : Machine → Stream → Prop
  | late {m : Machine} {a : Nat} {o : Outcome Stream} {x : Stream}
    (control : m.control = .run (.deliver a o)) (stream : o.stream? = some x)
    (late : (m.world.attemptAt a).resolved = true) : TurnsDown m x
  | unchanged {m : Machine} {a : Nat} {r : Reply Stream} {x : Stream}
    (control : m.control = .run (.deliver a (.reply r))) (stream : r.stream = some x)
    (status : r.status = StatusCode.notModified) : TurnsDown m x
  | unscheduled {m : Machine} {k : CopyTask} (control : m.control = .run (.schedule k))
    (declines : m.world.Declines) : TurnsDown m k.stream

/-- What the trace, the queue and the counter of streams have in common when a step does nothing with
them but write to the trace. -/
structure Beside (m m' : Machine) : Prop where
  queued : m'.world.queued = m.world.queued
  streams : m'.world.streams = m.world.streams
  trace : m.world.Aside m'.world

/-- What a step does with streams. -/
inductive Carries (m m' : Machine) : Prop
  | aside (empty : m.control.Empty) (empty' : m'.control.Empty) (held : SameHeld m.stack m'.stack)
    (beside : m.Beside m')
  /-- A stream comes with an outcome. -/
  | bring {a : Nat} {o : Outcome Stream} {x : Stream} (empty : m.control.Empty)
    (control' : m'.control = .run (.deliver a o)) (stream : o.stream? = some x)
    (fresh : x.id = m.world.streams) (held : SameHeld m.stack m'.stack)
    (queued : m'.world.queued = m.world.queued)
    (streams : m'.world.streams = m.world.streams + 1) (trace : m.world.Aside m'.world)
  /-- The stream of a late outcome is closed. -/
  | drop {x : Stream} (passing : m.control.passing? = some x) (down : m.TurnsDown x)
    (empty' : m'.control.Empty) (stack : m'.stack = m.stack)
    (queued : m'.world.queued = m.world.queued) (streams : m'.world.streams = m.world.streams)
    {before : List Event} (quiet : ∀ e ∈ before, e.isOfStream = false)
    (trace : m.world.Closes x.id before m'.world)
  /-- The stream will be closed once the rest is done. -/
  | hold {x : Stream} (passing : m.control.passing? = some x) (down : m.TurnsDown x)
    (empty' : m'.control.Empty) (stack : m'.stack = .holding x :: m.stack) (beside : m.Beside m')
  | handOver {a : Nat} {r : Reply Stream} {x : Stream}
    (control : m.control = .run (.deliver a (.reply r))) (stream : r.stream = some x)
    (taken : ¬ m.TurnsDown x)
    (control' : m'.control = .run (.schedule ⟨a, r.status, r.headers, x, r.length⟩))
    (stack : m'.stack = m.stack) (beside : m.Beside m')
  | enqueue {k : CopyTask} (control : m.control = .run (.schedule k))
    (taken : ¬ m.TurnsDown k.stream) (empty' : m'.control.Empty) (stack : m'.stack = m.stack)
    (queued : m'.world.queued = m.world.queued ++ [k])
    (streams : m'.world.streams = m.world.streams) (trace : m.world.Aside m'.world)
  | start {k : CopyTask} (control : m.control = .run (.schedule k))
    (taken : ¬ m.TurnsDown k.stream) (control' : m'.control = .run (.copy k))
    (held : SameHeld m.stack m'.stack) (beside : m.Beside m')
  | take {k : CopyTask} (empty : m.control.Empty) (control' : m'.control = .run (.copy k))
    (held : SameHeld m.stack m'.stack) (queued : m.world.queued = k :: m'.world.queued)
    (streams : m'.world.streams = m.world.streams) (trace : m.world.Aside m'.world)
  | copy {k : CopyTask} (control : m.control = .run (.copy k)) (empty' : m'.control.Empty)
    (stack : m'.stack = m.stack) (queued : m'.world.queued = m.world.queued)
    (streams : m'.world.streams = m.world.streams) {before : List Event}
    (reads : ∀ e ∈ before, e.isOfStream = true → e.reads k.stream.id = true)
    (trace : m.world.Closes k.stream.id before m'.world)
  /-- A stream is closed at the end of what was done meanwhile. -/
  | release {x : Stream} (empty : m.control.Empty) (empty' : m'.control.Empty)
    (stack : m.stack = .holding x :: m'.stack) (queued : m'.world.queued = m.world.queued)
    (streams : m'.world.streams = m.world.streams) (trace : m.world.Closes x.id [] m'.world)

end Machine

/-! ## Lemmas -/

theorem Control.Empty.bare {c : Control} (h : c.Empty) : c.Bare := by
  obtain ⟨passing, copying⟩ := h
  unfold Control.Bare
  split
  · cases passing
  · cases copying
  · trivial

namespace World

variable {w w' w'' : World}

theorem Aside.of_eq (h : w'.trace = w.trace) : w.Aside w' := ⟨[], by rw [h]; simp, by simp⟩

theorem Aside.note (w : World) {e : Event} (h : e.isOfStream = false) : w.Aside (w.note e) := by
  refine ⟨[e], by simp [World.note], ?_⟩
  intro e' he
  rw [List.mem_singleton.1 he, h]

theorem Aside.addLogs (w : World) (records : List LogRecord) : w.Aside (w.addLogs records) := by
  refine ⟨records.map .log, Trace.toList_addLogs _ _, ?_⟩
  intro e he
  obtain ⟨r, -, rfl⟩ := List.mem_map.1 he
  rfl

theorem Aside.trans (h : w.Aside w') (h' : w'.Aside w'') : w.Aside w'' := by
  obtain ⟨events, trace, none⟩ := h
  obtain ⟨events', trace', none'⟩ := h'
  refine ⟨events ++ events', by rw [trace', trace, List.append_assoc], ?_⟩
  intro e he
  exact (List.mem_append.1 he).elim (none e) (none' e)

theorem isOfStream_of_isLog {e : Event} (h : e.isLog = true) : e.isOfStream = false := by
  cases e <;> first | rfl | cases h

theorem Closes.closeStream (w : World) (x : Stream) : w.Closes x.id [] (w.closeStream x) := by
  refine ⟨(closeRecords (ByteSource.closeFault x.source)).map .log, toList_close .., ?_⟩
  exact fun e he => isOfStream_of_isLog (isLog_of_mem_closeRecords he)

end World

/-- A copy does nothing with other streams before it closes its own. -/
theorem Dealing.reads_of_event? {stream : Nat} {d : Dealing} {e : Event}
    (h : d.event? stream = some e) (he : e.isOfStream = true) : e.reads stream = true := by
  rcases d with ⟨room, f | b⟩ | ⟨size, f | b⟩ | b <;> cases h <;>
    first | exact beq_self_eq_true stream | cases he

theorem SameHeld.of_eq {stack stack' : List Frame} (h : stack' = stack) : SameHeld stack stack' :=
  ⟨[], [], stack, rfl, h, by simp, by simp⟩

theorem SameHeld.push {f : Frame} (h : f.stream? = none) (stack : List Frame) :
    SameHeld stack (f :: stack) := ⟨[], [f], stack, rfl, rfl, by simp, by simpa using h⟩

theorem SameHeld.pop {f : Frame} (h : f.stream? = none) (stack : List Frame) :
    SameHeld (f :: stack) stack := ⟨[f], [], stack, rfl, rfl, by simpa using h, by simp⟩

theorem SameHeld.replace {f g : Frame} (hf : f.stream? = none) (hg : g.stream? = none)
    (stack : List Frame) : SameHeld (f :: stack) (g :: stack) :=
  ⟨[f], [g], stack, rfl, rfl, by simpa using hf, by simpa using hg⟩

namespace Machine

variable {w : World} {stack : List Frame}

/-- The instruction has no stream in hand. -/
theorem Carries.idle {m m' : Machine} (empty : m.control.Empty) (empty' : m'.control.Empty)
    (held : SameHeld m.stack m'.stack) (queued : m'.world.queued = m.world.queued)
    (streams : m'.world.streams = m.world.streams) (trace : m'.world.trace = m.world.trace) :
    Carries m m' := .aside empty empty' held ⟨queued, streams, .of_eq trace⟩

theorem takeTurn_carries (a : Nat) (t : Turn) :
    Carries ⟨w, .run (.turn a t), stack⟩ (takeTurn w a t stack) := by
  unfold takeTurn
  split
  · dsimp only
    split
    · exact .idle ⟨rfl, rfl⟩ ⟨rfl, rfl⟩ (.of_eq rfl) rfl rfl rfl
    · exact .idle ⟨rfl, rfl⟩ ⟨rfl, rfl⟩ (.of_eq rfl) rfl rfl rfl
  · next d rest deliveries =>
    have push : SameHeld stack (.turn a { t with deliveries := rest } :: stack) := .push rfl stack
    cases ho : d.outcome with
    | reply r =>
      cases hr : r.stream with
      | none =>
        simp only [Outcome.number, hr]
        exact .idle ⟨rfl, rfl⟩ ⟨rfl, rfl⟩ push rfl rfl rfl
      | some source =>
        simp only [Outcome.number, hr]
        exact .bring ⟨rfl, rfl⟩ rfl rfl rfl push rfl rfl (.of_eq rfl)
    | authFailure message => exact .idle ⟨rfl, rfl⟩ ⟨rfl, rfl⟩ push rfl rfl rfl
    | failure f => exact .idle ⟨rfl, rfl⟩ ⟨rfl, rfl⟩ push rfl rfl rfl

theorem openReply_carries (a : Nat) {r : Reply Stream} (proper : r.bytes = none ∨ r.stream = none)
    (first : (w.attemptAt a).resolved = false) :
    Carries ⟨w, .run (.deliver a (.reply r)), stack⟩ (openReply (w.resolve a) a r stack) := by
  have beside {i : Instr} {st : List Frame} {c : Control} :
      Beside ⟨w, c, stack⟩ (doing (w.resolve a) i st) := ⟨rfl, rfl, .of_eq rfl⟩
  have nothing (hr : r.stream = none) :
      Control.Empty (.run (.deliver a (.reply r))) := ⟨hr, rfl⟩
  unfold openReply
  split
  · next status =>
    cases hr : r.stream with
    | none => exact .aside (nothing hr) ⟨rfl, rfl⟩ (.of_eq rfl) beside
    | some x => exact .hold hr (.unchanged rfl hr status) ⟨rfl, rfl⟩ rfl beside
  · next status =>
    split
    · next body hb =>
      refine .aside (nothing ?_) ⟨rfl, rfl⟩ (.of_eq rfl) beside
      rcases proper with none | none
      · rw [hb] at none
        cases none
      · exact none
    · next hb hr => exact .aside (nothing hr) ⟨rfl, rfl⟩ (.of_eq rfl) beside
    · next x hb hr =>
      refine .handOver rfl hr ?_ rfl rfl beside
      intro down
      cases down with
      | late control stream late =>
        cases control
        exact Bool.false_ne_true (first.symm.trans late)
      | unchanged control stream unchanged =>
        cases control
        exact status unchanged
      | unscheduled control declines => cases control

theorem deliver_carries (a : Nat) {o : Outcome Stream} (proper : o.Proper) :
    Carries ⟨w, .run (.deliver a o), stack⟩ (deliver w a o stack) := by
  unfold deliver
  dsimp only
  split
  · next late =>
    have logged := World.Aside.note w (e := .log ((w.requestOf (w.callOf a)).logLine .error
      (text "Transport resolved the same attempt twice, ignoring"))) rfl
    cases ho : o.stream? with
    | none => exact .aside ⟨ho, rfl⟩ ⟨rfl, rfl⟩ (.of_eq rfl) ⟨rfl, rfl, logged⟩
    | some x =>
      obtain ⟨after, trace, quiet⟩ := World.Closes.closeStream (w.logFor (w.callOf a) .error
        (text "Transport resolved the same attempt twice, ignoring")) x
      obtain ⟨events, log, none⟩ := logged
      refine .drop ho (.late rfl ho late) ⟨rfl, rfl⟩ rfl rfl rfl none ⟨after, ?_, quiet⟩
      exact trace.trans (by rw [World.logFor, log, List.append_assoc]; rfl)
  · next first =>
    cases o with
    | authFailure message => exact .idle ⟨rfl, rfl⟩ ⟨rfl, rfl⟩ (.of_eq rfl) rfl rfl rfl
    | failure f => exact .idle ⟨rfl, rfl⟩ ⟨rfl, rfl⟩ (.of_eq rfl) rfl rfl rfl
    | reply r => exact openReply_carries a proper (by simpa using first)

theorem not_turnsDown_of_schedule {k : CopyTask} {x : Stream} (h : ¬ w.Declines) :
    ¬ TurnsDown ⟨w, .run (.schedule k), stack⟩ x := by
  intro down
  cases down with
  | late control stream late => cases control
  | unchanged control stream status => cases control
  | unscheduled control declines => exact h declines

theorem schedule_carries (k : CopyTask) :
    Carries ⟨w, .run (.schedule k), stack⟩ (schedule w k stack) := by
  have told : w.Aside (w.note .submit) := .note w rfl
  have declined (h : w.Declines) {w' : World} (f : Fault) (queued : w'.queued = w.queued)
      (streams : w'.streams = w.streams) (trace : w.Aside w') :
      Carries ⟨w, .run (.schedule k), stack⟩
        (doing w' (.unscheduled k f) (.holding k.stream :: stack)) :=
    .hold rfl (.unscheduled rfl h) ⟨rfl, rfl⟩ rfl ⟨queued, streams, trace⟩
  unfold schedule
  split
  · next gone =>
    exact declined (fun e he => by rw [gone] at he; cases he) _ rfl rfl (.of_eq rfl)
  · next e he =>
    -- what the executor would have to be like for the task to be declined
    have only (h : e.isAlive = true → e.refusing = true ∧ (e.mode = .queue ∨ e.mode = .queueThenFail)) :
        w.Declines := by
      intro e' he'
      rw [he] at he'
      cases he'
      exact h
    have taken (h : ¬ (e.refusing = true ∧ (e.mode = .queue ∨ e.mode = .queueThenFail)))
        (alive : e.isAlive = true) : ¬ TurnsDown ⟨w, .run (.schedule k), stack⟩ k.stream :=
      not_turnsDown_of_schedule fun declines => h (declines e he alive)
    dsimp only
    split
    · next dead =>
      exact declined (only fun alive => by rw [alive] at dead; cases dead) _ rfl rfl (.of_eq rfl)
    · next alive =>
      have alive : e.isAlive = true := by simpa using alive
      have queued : w.queued = e.queue := by simp [World.queued, he]
      cases mode : e.mode with
      | runNow =>
        exact .start rfl (taken (by simp [mode]) alive) rfl (.push rfl stack) ⟨rfl, rfl, told⟩
      | runThenFail =>
        exact .start rfl (taken (by simp [mode]) alive) rfl (.push rfl stack) ⟨rfl, rfl, told⟩
      | queue | queueThenFail =>
        dsimp only
        split
        · next refusing =>
          exact declined (only fun _ => ⟨refusing, by simp [mode]⟩) _ rfl rfl told
        · next accepting =>
          refine .enqueue rfl (taken (by simp [accepting]) alive) ⟨rfl, rfl⟩ rfl ?_ rfl told
          rw [queued]
          rfl

/-- What a copy adds to the trace: its reads, and then the close of its stream. -/
theorem block_closes (w : World) (stack : List Frame) (k : CopyTask) : ∃ before after,
    block ⟨w, .run (.copy k), stack⟩ = before ++ .close k.stream.id :: after ∧
      (∀ e ∈ before, e.isOfStream = true → e.reads k.stream.id = true) ∧
      ∀ e ∈ after, e.isOfStream = false := by
  obtain ⟨l, last, logs, settled⟩ :=
    copyBody_settled k.stream.id k.stream.source k.length w.pool w.config.bodyBuffer
  have reads : ∀ e ∈ l.filterMap (Dealing.event? k.stream.id), e.isOfStream = true →
      e.reads k.stream.id = true := by
    intro e he _
    obtain ⟨d, -, hd⟩ := List.mem_filterMap.1 he
    exact Dealing.reads_of_event? hd ‹_›
  have quiet : ∀ e ∈ logs, e.isOfStream = false :=
    fun e he => World.isOfStream_of_isLog (settled.logs e he)
  show ∃ before after, (tracedEvents w (copyBody k.stream.id k.stream.source k.length w.pool
    w.config.bodyBuffer).trace).toList = _ ∧ _
  unfold tracedEvents
  split
  · exact ⟨_, logs, settled.trace, reads, quiet⟩
  · refine ⟨(l.filterMap (Dealing.event? k.stream.id)).filter (fun e => !e.isPoolEvent),
      logs.filter (fun e => !e.isPoolEvent), ?_, ?_, ?_⟩
    · rw [Array.toList_filter, settled.trace, List.filter_append]
      rfl
    · exact fun e he => reads e (List.mem_filter.1 he).1
    · exact fun e he => quiet e (List.mem_filter.1 he).1

theorem copy_carries (k : CopyTask) :
    Carries ⟨w, .run (.copy k), stack⟩ (copy w k stack) := by
  obtain ⟨before, after, block, reads, quiet⟩ := block_closes w stack k
  obtain ⟨trace, queued, same, next⟩ := copy_next w k stack
  have empty : (copy w k stack).control.Empty := by
    rcases next with ⟨body, next⟩ | ⟨context, next⟩
    · rw [next]
      exact ⟨rfl, rfl⟩
    · rw [next]
      exact ⟨rfl, rfl⟩
  have streams : (copy w k stack).world.streams = w.streams := by
    unfold copy
    dsimp only
    split <;> rfl
  exact .copy rfl empty same queued streams reads ⟨after, by rw [trace, block], quiet⟩

theorem taken_carries {i : Instr} (hi : Control.Empty (.run i)) {f : Frame} (hf : f.stream? = none)
    {k : CopyTask} {w' : World} (h : takeTask w = some (k, w')) :
    Carries ⟨w, .run i, stack⟩ (doing w' (.copy k) (f :: stack)) := by
  obtain ⟨queued, -, -, trace, -⟩ := World.takeTask_eq_some h
  refine .take hi rfl (.push hf stack) queued ?_ (.of_eq trace)
  unfold takeTask at h
  split at h
  · cases h
  · split at h
    · cases h
    · cases h
      rfl

theorem exec_carries {i : Instr} (proper : (Control.run i).Proper) :
    Carries ⟨w, .run i, stack⟩ (exec w i stack) := by
  have same : SameHeld stack stack := .of_eq rfl
  cases i with
  | turn a t => exact takeTurn_carries a t
  | deliver a o => exact deliver_carries a proper
  | schedule k => exact schedule_carries k
  | copy k => exact copy_carries k
  | perform p =>
    simp only [exec, perform]
    split
    · exact .idle ⟨rfl, rfl⟩ ⟨rfl, rfl⟩ same rfl rfl rfl
    · split
      · exact .idle ⟨rfl, rfl⟩ ⟨rfl, rfl⟩ same rfl rfl rfl
      · split
        · exact .idle ⟨rfl, rfl⟩ ⟨rfl, rfl⟩ same rfl rfl rfl
        · exact .idle ⟨rfl, rfl⟩ ⟨rfl, rfl⟩ same rfl rfl rfl
  | dispatch c =>
    simp only [exec, dispatch]
    split
    · exact .idle ⟨rfl, rfl⟩ ⟨rfl, rfl⟩ (.push rfl stack) rfl rfl rfl
    · exact .idle ⟨rfl, rfl⟩ ⟨rfl, rfl⟩ same rfl rfl rfl
  | begin c =>
    simp only [exec, begin]
    split
    · exact .idle ⟨rfl, rfl⟩ ⟨rfl, rfl⟩ same rfl rfl rfl
    · exact .idle ⟨rfl, rfl⟩ ⟨rfl, rfl⟩ (.push rfl stack) rfl rfl rfl
  | send a headers =>
    simp only [exec, send]
    split
    · exact .aside ⟨rfl, rfl⟩ ⟨rfl, rfl⟩ same ⟨rfl, rfl, .note w rfl⟩
    · exact .aside ⟨rfl, rfl⟩ ⟨rfl, rfl⟩ (.push rfl stack) ⟨rfl, rfl, .note w rfl⟩
  | unscheduled k f => exact .aside ⟨rfl, rfl⟩ ⟨rfl, rfl⟩ same ⟨rfl, rfl, .note w rfl⟩
  | receive a status headers body =>
    simp only [exec, receive]
    split <;> exact .aside ⟨rfl, rfl⟩ ⟨rfl, rfl⟩ same ⟨rfl, rfl, .addLogs w _⟩
  | fail c context =>
    exact .aside ⟨rfl, rfl⟩ ⟨rfl, rfl⟩ same
      ⟨rfl, rfl, (World.Aside.note w rfl).trans (.addLogs _ _)⟩
  | settle c time answer =>
    simp only [exec, settle]
    split
    · exact .aside ⟨rfl, rfl⟩ ⟨rfl, rfl⟩ same ⟨rfl, rfl, .note w rfl⟩
    · exact .idle ⟨rfl, rfl⟩ ⟨rfl, rfl⟩ same rfl rfl rfl
    · exact .aside ⟨rfl, rfl⟩ ⟨rfl, rfl⟩ same ⟨rfl, rfl, .note w rfl⟩
  | complete c result =>
    simp only [exec, complete]
    split
    · exact .aside ⟨rfl, rfl⟩ ⟨rfl, rfl⟩ same ⟨rfl, rfl, .note w rfl⟩
    · split <;> exact .aside ⟨rfl, rfl⟩ ⟨rfl, rfl⟩ same ⟨rfl, rfl, .note _ rfl⟩
  | react r =>
    cases r with
    | rest => exact .idle ⟨rfl, rfl⟩ ⟨rfl, rfl⟩ same rfl rfl rfl
    | raise message => exact .idle ⟨rfl, rfl⟩ ⟨rfl, rfl⟩ same rfl rfl rfl
    | perform request onSuccess onError fault =>
      exact .idle ⟨rfl, rfl⟩ ⟨rfl, rfl⟩ (.push rfl stack) rfl rfl rfl
  | runQueue n =>
    simp only [exec, runQueue]
    split
    · exact .idle ⟨rfl, rfl⟩ ⟨rfl, rfl⟩ same rfl rfl rfl
    · next taken => exact taken_carries ⟨rfl, rfl⟩ rfl taken
  | serve =>
    simp only [exec, serve]
    split
    · exact .idle ⟨rfl, rfl⟩ ⟨rfl, rfl⟩ same rfl rfl rfl
    · next taken => exact taken_carries ⟨rfl, rfl⟩ rfl taken

theorem resume_carries (a : Answer) (f : Frame) :
    Carries ⟨w, .done a, f :: stack⟩ (resume w f stack) := by
  cases f with
  | attempts c =>
    simp only [resume, nextAttempt]
    split
    · exact .idle ⟨rfl, rfl⟩ ⟨rfl, rfl⟩ (.replace rfl rfl stack) rfl rfl rfl
    · exact .idle ⟨rfl, rfl⟩ ⟨rfl, rfl⟩ (.pop rfl stack) rfl rfl rfl
  | holding x => exact .release ⟨rfl, rfl⟩ ⟨rfl, rfl⟩ rfl rfl rfl (.closeStream w x)
  | submitting k fails =>
    cases fails <;> exact .idle ⟨rfl, rfl⟩ ⟨rfl, rfl⟩ (.pop rfl stack) rfl rfl rfl
  | reacting fault =>
    cases fault <;> exact .idle ⟨rfl, rfl⟩ ⟨rfl, rfl⟩ (.pop rfl stack) rfl rfl rfl
  | sending _ | nested | turn _ _ | answering _ | queue _ | worker =>
    exact .idle ⟨rfl, rfl⟩ ⟨rfl, rfl⟩ (.pop rfl stack) rfl rfl rfl

theorem unwind_carries (fault : Fault) (f : Frame) :
    Carries ⟨w, .raised fault, f :: stack⟩ (unwind w fault f stack) := by
  cases f with
  | sending a =>
    simp only [unwind]
    split <;> exact .idle ⟨rfl, rfl⟩ ⟨rfl, rfl⟩ (.pop rfl stack) rfl rfl rfl
  | holding x => exact .release ⟨rfl, rfl⟩ ⟨rfl, rfl⟩ rfl rfl rfl (.closeStream w x)
  | worker => exact .aside ⟨rfl, rfl⟩ ⟨rfl, rfl⟩ (.pop rfl stack) ⟨rfl, rfl, .note w rfl⟩
  | attempts _ | nested | turn _ _ | submitting _ _ | reacting _ | answering _ | queue _ =>
    exact .idle ⟨rfl, rfl⟩ ⟨rfl, rfl⟩ (.pop rfl stack) rfl rfl rfl

/-- A step carries streams in one of these ways, whatever a classifier answers. -/
theorem Moves.carries {m m' : Machine} (h : m.Moves m') (proper : m.Proper) : Carries m m' := by
  cases h with
  | judge w c context answer stack => exact .idle ⟨rfl, rfl⟩ ⟨rfl, rfl⟩ (.of_eq rfl) rfl rfl rfl
  | step =>
    obtain ⟨w, control, stack⟩ := m
    cases control with
    | run i => exact exec_carries proper.control
    | done a =>
      cases stack with
      | nil => exact .idle ⟨rfl, rfl⟩ ⟨rfl, rfl⟩ (.of_eq rfl) rfl rfl rfl
      | cons f stack => exact resume_carries a f
    | raised fault =>
      cases stack with
      | nil => exact .idle ⟨rfl, rfl⟩ ⟨rfl, rfl⟩ (.of_eq rfl) rfl rfl rfl
      | cons f stack => exact unwind_carries fault f

/-! ## Proper replies -/

theorem proper_number {o : Outcome Source} (h : o.Proper) (n : Nat) : (o.number n).1.Proper := by
  cases o with
  | reply r =>
    cases hr : r.stream with
    | none => simp [Outcome.number, hr, Outcome.Proper]
    | some source =>
      simp only [Outcome.number, hr, Outcome.Proper]
      exact h.imp id fun none => by rw [hr] at none; cases none
  | authFailure message => trivial
  | failure f => trivial

theorem proper_nextTurn {t : Transport} (h : ∀ turn ∈ t.script, turn.Proper) :
    t.nextTurn.1.Proper ∧ ∀ turn ∈ t.nextTurn.2.script, turn.Proper := by
  unfold Transport.nextTurn
  split
  · next empty =>
    refine ⟨?_, h⟩
    intro d hd
    rw [List.mem_singleton.1 hd]
    trivial
  · next turn rest script =>
    rw [script] at h
    exact ⟨h turn List.mem_cons_self, fun u hu => h u (List.mem_cons_of_mem _ hu)⟩

section

variable {m m' : Machine} (h : m.Proper)

include h

/-- A step that leaves the script alone and begins with no turn and no outcome. -/
theorem Proper.next (script : m'.world.transport.script = m.world.transport.script)
    (control : m'.control.Proper) (stack : ∀ f ∈ m'.stack, f ∈ m.stack ∨ f.Proper) : m'.Proper :=
  ⟨by rw [script]; exact h.script, control, fun f hf => (stack f hf).elim (h.stack f) id⟩

theorem Proper.same (script : m'.world.transport.script = m.world.transport.script)
    (control : m'.control.Proper) (stack : m'.stack = m.stack) : m'.Proper :=
  h.next script control fun f hf => .inl (by rwa [← stack])

theorem Proper.push {f : Frame} (script : m'.world.transport.script = m.world.transport.script)
    (control : m'.control.Proper) (stack : m'.stack = f :: m.stack) (hf : f.Proper) : m'.Proper := by
  refine h.next script control fun g hg => ?_
  rw [stack] at hg
  rcases List.mem_cons.1 hg with rfl | hg
  · exact .inr hf
  · exact .inl hg

theorem Proper.pop {f : Frame} (script : m'.world.transport.script = m.world.transport.script)
    (control : m'.control.Proper) (stack : m.stack = f :: m'.stack) : m'.Proper :=
  h.next script control fun g hg => .inl (by rw [stack]; exact List.mem_cons_of_mem f hg)

end

theorem send_proper {a : Nat} {headers : List Header}
    (h : Proper ⟨w, .run (.send a headers), stack⟩) : (send w a headers stack).Proper := by
  unfold send
  dsimp only
  split
  · exact h.same rfl trivial rfl
  · obtain ⟨turn, script⟩ := proper_nextTurn (t := (w.transport.noteSent headers
      (w.requestOf (w.callOf a)).timeout).enter) h.script
    exact ⟨script, turn, fun f hf => (List.mem_cons.1 hf).elim (fun same => same ▸ trivial) (h.stack f)⟩

theorem takeTurn_proper {a : Nat} {t : Turn} (h : Proper ⟨w, .run (.turn a t), stack⟩) :
    (takeTurn w a t stack).Proper := by
  have turn : t.Proper := h.control
  unfold takeTurn
  split
  · dsimp only
    split <;> exact h.same rfl trivial rfl
  · next d rest deliveries =>
    unfold Turn.Proper at turn
    rw [deliveries] at turn
    exact h.push rfl (proper_number (turn d List.mem_cons_self) w.streams) rfl
      fun e he => turn e (List.mem_cons_of_mem _ he)

theorem deliver_proper {a : Nat} {o : Outcome Stream}
    (h : Proper ⟨w, .run (.deliver a o), stack⟩) : (deliver w a o stack).Proper := by
  unfold deliver
  dsimp only
  split
  · refine h.same ?_ trivial rfl
    cases o.stream? <;> rfl
  · cases o with
    | authFailure message => exact h.same rfl trivial rfl
    | failure f => exact h.same rfl trivial rfl
    | reply r =>
      dsimp only
      unfold openReply
      split
      · cases r.stream with
        | none => exact h.same rfl trivial rfl
        | some x => exact h.push (f := .holding x) rfl trivial rfl trivial
      · split <;> exact h.same rfl trivial rfl

theorem schedule_proper {k : CopyTask} (h : Proper ⟨w, .run (.schedule k), stack⟩) :
    (schedule w k stack).Proper := by
  have held {w' : World} {f : Fault} (hw : w'.transport.script = w.transport.script) :
      (doing w' (.unscheduled k f) (.holding k.stream :: stack)).Proper := h.push hw trivial rfl trivial
  unfold schedule
  split
  · exact held rfl
  · dsimp only
    split
    · exact held rfl
    · split
      · exact h.push (f := .submitting k false) rfl trivial rfl trivial
      · exact h.push (f := .submitting k true) rfl trivial rfl trivial
      · split
        · exact held rfl
        · exact h.same rfl trivial rfl
      · split
        · exact held rfl
        · exact h.same rfl trivial rfl

theorem taken_proper {i : Instr} {f : Frame} {k : CopyTask} {w' : World}
    (h : Proper ⟨w, .run i, stack⟩) (hf : f.Proper) (taken : takeTask w = some (k, w')) :
    (doing w' (.copy k) (f :: stack)).Proper := by
  refine h.push ?_ trivial rfl hf
  unfold takeTask at taken
  split at taken
  · cases taken
  · split at taken
    · cases taken
    · cases taken
      rfl

theorem exec_proper {i : Instr} (h : Proper ⟨w, .run i, stack⟩) : (exec w i stack).Proper := by
  cases i with
  | send a headers => exact send_proper h
  | turn a t => exact takeTurn_proper h
  | deliver a o => exact deliver_proper h
  | schedule k => exact schedule_proper h
  | perform p =>
    simp only [exec, perform]
    split
    · exact h.same rfl trivial rfl
    · split
      · exact h.same rfl trivial rfl
      · split <;> exact h.same rfl trivial rfl
  | dispatch c =>
    simp only [exec, dispatch]
    split
    · exact h.push rfl trivial rfl trivial
    · exact h.same rfl trivial rfl
  | begin c =>
    simp only [exec, begin]
    split
    · exact h.same rfl trivial rfl
    · exact h.push rfl trivial rfl trivial
  | copy k =>
    simp only [exec, copy]
    split <;> exact h.same rfl trivial rfl
  | receive a status headers body =>
    simp only [exec, receive]
    split <;> exact h.same rfl trivial rfl
  | settle c time answer =>
    simp only [exec, settle]
    split <;> exact h.same rfl trivial rfl
  | complete c result =>
    simp only [exec, complete]
    split
    · exact h.same rfl trivial rfl
    · split <;> exact h.same rfl trivial rfl
  | react r =>
    cases r with
    | rest | raise message => exact h.same rfl trivial rfl
    | perform request onSuccess onError fault => exact h.push rfl trivial rfl trivial
  | runQueue n =>
    simp only [exec, runQueue]
    split
    · exact h.same rfl trivial rfl
    · next taken => exact taken_proper h trivial taken
  | serve =>
    simp only [exec, serve]
    split
    · exact h.same rfl trivial rfl
    · next taken => exact taken_proper h trivial taken
  | unscheduled k f => exact h.same rfl trivial rfl
  | fail c context => exact h.same rfl trivial rfl

theorem resume_proper {a : Answer} {f : Frame} (h : Proper ⟨w, .done a, f :: stack⟩) :
    (resume w f stack).Proper := by
  have top : f.Proper := h.stack f List.mem_cons_self
  cases f with
  | attempts c =>
    simp only [resume, nextAttempt]
    split
    · exact h.same rfl trivial rfl
    · exact h.pop rfl trivial rfl
  | turn a t => exact h.pop rfl top rfl
  | submitting k fails => cases fails <;> exact h.pop rfl trivial rfl
  | reacting fault => cases fault <;> exact h.pop rfl trivial rfl
  | sending _ | nested | holding _ | answering _ | queue _ | worker => exact h.pop rfl trivial rfl

theorem unwind_proper {fault : Fault} {f : Frame} (h : Proper ⟨w, .raised fault, f :: stack⟩) :
    (unwind w fault f stack).Proper := by
  cases f with
  | sending a =>
    simp only [unwind]
    split <;> exact h.pop rfl trivial rfl
  | attempts _ | nested | turn _ _ | holding _ | submitting _ _ | reacting _ | answering _ | queue _
  | worker => exact h.pop rfl trivial rfl

theorem Moves.proper {m m' : Machine} (h : m.Moves m') (proper : m.Proper) : m'.Proper := by
  cases h with
  | judge w c context answer stack => exact proper.same rfl trivial rfl
  | step =>
    obtain ⟨w, control, stack⟩ := m
    cases control with
    | run i => exact exec_proper proper
    | done a =>
      cases stack with
      | nil => exact proper
      | cons f stack => exact resume_proper proper
    | raised fault =>
      cases stack with
      | nil => exact proper
      | cons f stack => exact unwind_proper proper

end Machine

end RequestFlow
