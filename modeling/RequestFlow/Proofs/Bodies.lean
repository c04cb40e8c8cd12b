import RequestFlow.Proofs.Census

/-!
# What a step does with bodies

A body that is to be copied comes from a reply to an unresolved attempt.  It is handed to the
executor, which copies it there and then or keeps it as a task, and only a copy deals with a stream
and the pool.

    a step passes bodies on in this way, and tells all that a copy did        (Moves.passes)
    after a copy comes the look at its body, or its failure                   (copy_next)
-/

namespace RequestFlow

/-- What a copy does with its stream and its pool, before the close. -/
def Event.isDealing : Event → Bool
  | .lease .. | .release .. | .read .. | .readFault .. => true
  | _ => false

/-- The trace was only added to, and no copy had a part in it. -/
def World.Tells (w w' : World) : Prop :=
  ∃ events, w'.trace.toList = w.trace.toList ++ events ∧ ∀ e ∈ events, e.isDealing = false

/-- The frame is an executor that is at work on the task. -/
def Frame.Works (k : CopyTask) : Frame → Prop
  | .submitting j _ => j = k
  | .queue _ | .worker => True
  | _ => False

/-- No body is handed over or copied. -/
def Control.Bare : Control → Prop
  | .run (.schedule _) | .run (.copy _) => False
  | _ => True

namespace Machine

/-- The task that the next step copies. -/
def task? (m : Machine) : Option CopyTask :=
  match m.control with
  | .run (.copy k) => some k
  | _ => none

/-- What the next step adds to the trace by copying a body. -/
def block (m : Machine) : List Event :=
  match m.task? with
  | some k => (tracedEvents m.world (copyBody k.stream.id k.stream.source k.length
      m.world.pool m.world.config.bodyBuffer).trace).toList
  | none => []

/-- From one machine to the next, bodies are passed on as they should. -/
structure Passes (m m' : Machine) : Prop where
  trace : ∃ events, m'.world.trace.toList = m.world.trace.toList ++ (m.block ++ events) ∧
    ∀ e ∈ events, e.isDealing = false
  copies : ∀ k, m'.control = .run (.copy k) → (∃ f rest, m'.stack = f :: rest ∧ f.Works k) ∧
    (k ∈ m.world.queued ∨ m.control = .run (.schedule k))
  schedules : ∀ k, m'.control = .run (.schedule k) →
    (m.world.attemptAt k.attempt).resolved = false ∧ ∃ o, m.control = .run (.deliver k.attempt o)
  queued : ∀ k ∈ m'.world.queued, k ∈ m.world.queued ∨ m.control = .run (.schedule k)

end Machine

/-! ## Lemmas -/

theorem Machine.task?_eq_some {m : Machine} {k : CopyTask} :
    m.task? = some k ↔ m.control = .run (.copy k) := by
  unfold task?
  constructor
  · intro h
    split at h
    · next j hc =>
      cases h
      exact hc
    · cases h
  · intro h
    rw [h]

namespace World

variable {w w' : World}

theorem Tells.of_eq (h : w'.trace = w.trace) : w.Tells w' := ⟨[], by rw [h]; simp, by simp⟩

theorem Tells.refl (w : World) : w.Tells w := .of_eq rfl

theorem Tells.trans {w'' : World} (h : w.Tells w') (h' : w'.Tells w'') : w.Tells w'' := by
  obtain ⟨events, trace, none⟩ := h
  obtain ⟨events', trace', none'⟩ := h'
  refine ⟨events ++ events', by rw [trace', trace, List.append_assoc], ?_⟩
  intro e he
  exact (List.mem_append.1 he).elim (none e) (none' e)

theorem Tells.note (w : World) {e : Event} (h : e.isDealing = false) : w.Tells (w.note e) := by
  refine ⟨[e], by simp [World.note], ?_⟩
  intro e' he
  rw [List.mem_singleton.1 he, h]

theorem Tells.addLogs (w : World) (records : List LogRecord) : w.Tells (w.addLogs records) := by
  refine ⟨records.map .log, Trace.toList_addLogs _ _, ?_⟩
  intro e he
  obtain ⟨r, -, rfl⟩ := List.mem_map.1 he
  rfl

theorem Tells.closeStream (w : World) (s : Stream) : w.Tells (w.closeStream s) := by
  refine ⟨closeEvents s.id s.source, ?_, ?_⟩
  · simp [World.closeStream, Stream.close, List.foldl_push_eq_append']
  · intro e he
    simp only [closeEvents, List.mem_cons, List.mem_map] at he
    rcases he with rfl | ⟨r, -, rfl⟩ <;> rfl

theorem Tells.closeStream? (w : World) (s : Option Stream) : w.Tells (w.closeStream? s) := by
  cases s with
  | none => exact .refl w
  | some s => exact .closeStream w s

end World

namespace Machine

variable {w : World} {stack : List Frame}

/-- A step that has no body to pass on. -/
theorem Passes.aside {m m' : Machine} (hb : m.block = []) (ht : m.world.Tells m'.world)
    (hq : m'.world.queued = m.world.queued) (hc : m'.control.Bare) : Passes m m' := by
  refine ⟨?_, ?_, ?_, ?_⟩
  · rw [hb]
    exact ht
  · intro k hk
    rw [hk] at hc
    exact hc.elim
  · intro k hk
    rw [hk] at hc
    exact hc.elim
  · intro k hk
    rw [hq] at hk
    exact Or.inl hk

/-- The executor begins with a task. -/
theorem Passes.starts {i : Instr} {w' : World} {f : Frame} {k : CopyTask} (hi : ∀ k, i ≠ .copy k)
    (ht : w'.trace = w.trace) (hk : w.queued = k :: w'.queued) (hf : f.Works k) :
    Passes ⟨w, .run i, stack⟩ (doing w' (.copy k) (f :: stack)) := by
  have block : block ⟨w, .run i, stack⟩ = [] := by
    cases i <;> first | rfl | exact absurd rfl (hi _)
  refine ⟨?_, ?_, by simp [doing], ?_⟩
  · rw [block]
    exact World.Tells.of_eq ht
  · intro j hj
    cases hj
    exact ⟨⟨f, stack, rfl, hf⟩, Or.inl (by rw [hk]; exact List.mem_cons_self)⟩
  · intro j hj
    refine Or.inl ?_
    show j ∈ w.queued
    rw [hk]
    exact List.mem_cons_of_mem k hj

theorem openReply_passes (a : Nat) (r : Reply Stream) (hr : (w.attemptAt a).resolved = false) :
    Passes ⟨w, .run (.deliver a (.reply r)), stack⟩ (openReply (w.resolve a) a r stack) := by
  have tells : w.Tells (w.resolve a) := .of_eq rfl
  unfold openReply
  split
  · exact .aside rfl tells rfl trivial
  · split
    · exact .aside rfl tells rfl trivial
    · exact .aside rfl tells rfl trivial
    · refine ⟨tells, by simp [doing], ?_, fun k hk => Or.inl hk⟩
      intro k hk
      cases hk
      exact ⟨hr, _, rfl⟩

theorem deliver_passes (a : Nat) (o : Outcome Stream) :
    Passes ⟨w, .run (.deliver a o), stack⟩ (deliver w a o stack) := by
  have tells : w.Tells (w.resolve a) := .of_eq rfl
  unfold deliver
  dsimp only
  split
  · refine .aside rfl ((World.Tells.note w rfl).trans (.closeStream? _ _)) ?_ trivial
    cases o.stream? <;> rfl
  · next open' =>
    cases o with
    | authFailure message => exact .aside rfl tells rfl trivial
    | failure f => exact .aside rfl tells rfl trivial
    | reply r => exact openReply_passes a r (by simpa using open')

theorem schedule_passes (k : CopyTask) :
    Passes ⟨w, .run (.schedule k), stack⟩ (schedule w k stack) := by
  have told : w.Tells (w.note .submit) := .note w rfl
  -- the executor copies the body at once, or keeps it as its last task
  have now (fails : Bool) : Passes ⟨w, .run (.schedule k), stack⟩
      (doing (w.note .submit) (.copy k) (.submitting k fails :: stack)) := by
    refine ⟨told, ?_, by simp [doing], fun j hj => Or.inl hj⟩
    intro j hj
    cases hj
    exact ⟨⟨_, _, rfl, rfl⟩, Or.inr rfl⟩
  have later {e : Executor} (he : w.executor = some e) {m : Machine}
      (hw : m.world = (w.note .submit).setExecutor (e.enqueue k)) (hc : m.control.Bare) :
      Passes ⟨w, .run (.schedule k), stack⟩ m := by
    refine ⟨by rw [hw]; exact told, ?_, ?_, ?_⟩
    · intro j hj
      rw [hj] at hc
      exact hc.elim
    · intro j hj
      rw [hj] at hc
      exact hc.elim
    · intro j hj
      rw [hw] at hj
      have queued : w.queued = e.queue := by simp [World.queued, he]
      rcases List.mem_append.1 (show j ∈ e.queue ++ [k] from hj) with hj | hj
      · exact Or.inl (queued ▸ hj)
      · rw [List.mem_singleton.1 hj]
        exact Or.inr rfl
  unfold schedule
  split
  · exact .aside rfl (.refl w) rfl trivial
  · next e he =>
    dsimp only
    split
    · exact .aside rfl (.refl w) rfl trivial
    · split
      · exact now false
      · exact now true
      · split
        · exact .aside rfl told rfl trivial
        · exact later he rfl trivial
      · split
        · exact .aside rfl told rfl trivial
        · exact later he rfl trivial

/-- After a copy comes the look at its body, or its failure, under the same executor. -/
theorem copy_next (w : World) (k : CopyTask) (stack : List Frame) :
    (copy w k stack).world.trace.toList =
        w.trace.toList ++ block ⟨w, .run (.copy k), stack⟩ ∧
      (copy w k stack).world.queued = w.queued ∧ (copy w k stack).stack = stack ∧
      ((∃ body, (copy w k stack).control = .run (.receive k.attempt k.status k.headers body)) ∨
        ∃ context, (copy w k stack).control = .run (.fail (w.callOf k.attempt) context)) := by
  unfold copy
  dsimp only
  split
  · exact ⟨Array.toList_append, rfl, rfl, Or.inr ⟨_, rfl⟩⟩
  · exact ⟨Array.toList_append, rfl, rfl, Or.inl ⟨_, rfl⟩⟩

theorem copy_passes (k : CopyTask) : Passes ⟨w, .run (.copy k), stack⟩ (copy w k stack) := by
  obtain ⟨trace, queued, -, next⟩ := copy_next w k stack
  have bare : (copy w k stack).control.Bare := by
    rcases next with ⟨body, next⟩ | ⟨context, next⟩
    · rw [next]
      trivial
    · rw [next]
      trivial
  refine ⟨⟨[], by rw [trace, List.append_nil], by simp⟩, ?_, ?_, ?_⟩
  · intro j hj
    rw [hj] at bare
    exact bare.elim
  · intro j hj
    rw [hj] at bare
    exact bare.elim
  · intro j hj
    rw [queued] at hj
    exact Or.inl hj

theorem fail_passes (c : Nat) (context : FailureContext) :
    Passes ⟨w, .run (.fail c context), stack⟩ (fail w c context stack) :=
  .aside rfl ((World.Tells.note w rfl).trans (.addLogs _ _)) rfl trivial

theorem settle_passes (c : Nat) (time : Int) (answer : Except Fault Decision) :
    Passes ⟨w, .run (.settle c time answer), stack⟩ (settle w c time answer stack) := by
  unfold settle
  split
  · exact .aside rfl (.note w rfl) rfl trivial
  · exact .aside rfl (.refl w) rfl trivial
  · exact .aside rfl (.note w rfl) rfl trivial

theorem complete_passes (c : Nat) (result : Except RequestError Response) :
    Passes ⟨w, .run (.complete c result), stack⟩ (complete w c result stack) := by
  unfold complete
  dsimp only
  split
  · exact .aside rfl (.note w rfl) rfl trivial
  · split
    · exact .aside rfl (.note (w.setCall c _) rfl) rfl trivial
    · exact .aside rfl (.note (w.setCall c _) rfl) rfl trivial

theorem exec_passes (i : Instr) : Passes ⟨w, .run i, stack⟩ (exec w i stack) := by
  have idle : w.Tells w := .refl w
  cases i with
  | perform p =>
    simp only [exec, perform]
    split
    · exact .aside rfl idle rfl trivial
    · split
      · exact .aside rfl idle rfl trivial
      · split
        · exact .aside rfl idle rfl trivial
        · exact .aside rfl (.of_eq rfl) rfl trivial
  | dispatch c =>
    simp only [exec, dispatch]
    split
    · exact .aside rfl (.of_eq rfl) rfl trivial
    · exact .aside rfl (.of_eq rfl) rfl trivial
  | begin c =>
    simp only [exec, begin]
    split
    · exact .aside rfl (.of_eq rfl) rfl trivial
    · exact .aside rfl (.of_eq rfl) rfl trivial
  | send a headers =>
    have sent : w.Tells (w.note (.sent (w.callOf a) headers (w.requestOf (w.callOf a)).timeout)) :=
      .note w rfl
    simp only [exec, send]
    split
    · exact .aside rfl sent rfl trivial
    · exact .aside rfl sent rfl trivial
  | turn a t =>
    simp only [exec, takeTurn]
    split
    · split
      · exact .aside rfl (.of_eq rfl) rfl trivial
      · exact .aside rfl (.of_eq rfl) rfl trivial
    · exact .aside rfl (.of_eq rfl) rfl trivial
  | deliver a o => exact deliver_passes a o
  | schedule k => exact schedule_passes k
  | unscheduled k f => exact .aside rfl (.note w rfl) rfl trivial
  | copy k => exact copy_passes k
  | receive a status headers body =>
    simp only [exec, receive]
    split
    · exact .aside rfl (.addLogs w _) rfl trivial
    · exact .aside rfl (.addLogs w _) rfl trivial
  | fail c context => exact fail_passes c context
  | settle c time answer => exact settle_passes c time answer
  | complete c result => exact complete_passes c result
  | react r => cases r <;> exact .aside rfl idle rfl trivial
  | runQueue n =>
    simp only [exec, runQueue]
    split
    · exact .aside rfl idle rfl trivial
    · next k w' taken =>
      obtain ⟨queued, -, -, trace, -⟩ := World.takeTask_eq_some taken
      exact .starts (by simp) trace queued trivial
  | serve =>
    simp only [exec, serve]
    split
    · exact .aside rfl idle rfl trivial
    · next k w' taken =>
      obtain ⟨queued, -, -, trace, -⟩ := World.takeTask_eq_some taken
      exact .starts (by simp) trace queued trivial

theorem resume_passes (a : Answer) (f : Frame) :
    Passes ⟨w, .done a, f :: stack⟩ (resume w f stack) := by
  have idle : w.Tells w := .refl w
  cases f with
  | attempts c =>
    simp only [resume, nextAttempt]
    split
    · exact .aside rfl (.of_eq rfl) rfl trivial
    · exact .aside rfl (.of_eq rfl) rfl trivial
  | holding s => exact .aside rfl (.closeStream w s) rfl trivial
  | submitting k fails => cases fails <;> exact .aside rfl idle rfl trivial
  | reacting fault => cases fault <;> exact .aside rfl idle rfl trivial
  | sending _ | nested | turn _ _ | answering _ | queue _ | worker =>
    exact .aside rfl (.of_eq rfl) rfl trivial

theorem unwind_passes (fault : Fault) (f : Frame) :
    Passes ⟨w, .raised fault, f :: stack⟩ (unwind w fault f stack) := by
  have idle : w.Tells w := .refl w
  cases f with
  | sending a =>
    simp only [unwind]
    split
    · exact .aside rfl idle rfl trivial
    · exact .aside rfl (.of_eq rfl) rfl trivial
  | holding s => exact .aside rfl (.closeStream w s) rfl trivial
  | worker => exact .aside rfl (.note w rfl) rfl trivial
  | attempts _ | nested | turn _ _ | submitting _ _ | reacting _ | answering _ | queue _ =>
    exact .aside rfl idle rfl trivial

/-- A step passes bodies on as it should, whatever a classifier answers. -/
theorem Moves.passes {m m' : Machine} (h : m.Moves m') : Passes m m' := by
  cases h with
  | judge w c context answer stack => exact .aside rfl (.refl w) rfl trivial
  | step =>
    obtain ⟨w, control, stack⟩ := m
    cases control with
    | run i => exact exec_passes i
    | done a =>
      cases stack with
      | nil => exact .aside rfl (.refl w) rfl trivial
      | cons f stack => exact resume_passes a f
    | raised fault =>
      cases stack with
      | nil => exact .aside rfl (.refl w) rfl trivial
      | cons f stack => exact unwind_passes fault f

end Machine

end RequestFlow
