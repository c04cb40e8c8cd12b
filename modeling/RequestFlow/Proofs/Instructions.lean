import RequestFlow.Proofs.CopyTrace
import RequestFlow.Proofs.Flow

/-!
# What instructions move

One lemma for each instruction.  Most hand what is under way on to the next instruction over the same
stack; the others open a call, register or begin an attempt, take an outcome in hand, hand a body to
the executor or take it back, and tell the caller a result.

    an instruction neither loses nor doubles anything        (exec_sound)
-/

namespace RequestFlow.Machine

section

variable {past : List Machine} {w : World} {stack : List Frame} (hw : w.Valid)
include hw

/-- Going on with another instruction over the same stack, about the same call. -/
theorem handOn {w' : World} {i j : Instr} (hk : w.Keeps w') (hm : Fits past ⟨w, .run i, stack⟩)
    (ho : act ⟨w, .run i, stack⟩ = .other) (hp : (Control.run j).IsPlain)
    (hj : j.hand? w' = i.hand? w) (hf : j.Fits w' stack) :
    Sound past ⟨w, .run i, stack⟩ ⟨w', .run j, stack⟩ := by
  refine .of_keeps hk hw ho hp (fun _ => rfl) ?_ (fun _ h => h) ⟨hm.stack.mono hk.grows, hf⟩
  intro c
  rw [inHand_run, inHand_run, hj]

/-- Ending an instruction that has nothing in hand. -/
theorem finish {w' : World} {i : Instr} (a : Answer) (hk : w.Keeps w')
    (hm : Fits past ⟨w, .run i, stack⟩) (ho : act ⟨w, .run i, stack⟩ = .other)
    (hi : i.hand? w = none) : Sound past ⟨w, .run i, stack⟩ ⟨w', .done a, stack⟩ := by
  refine .of_keeps hk hw ho trivial (fun _ => rfl) ?_ (fun _ h => h)
    ⟨hm.stack.mono hk.grows, trivial⟩
  intro c
  rw [inHand_run, hi]
  rfl

/-- Raising a fault where it reaches no loop but that of an answered call. -/
theorem raise {w' : World} {i : Instr} (f : Fault) (hk : w.Keeps w')
    (hm : Fits past ⟨w, .run i, stack⟩) (ho : act ⟨w, .run i, stack⟩ = .other)
    (hi : i.hand? w = none) (hc : w'.Clear stack) :
    Sound past ⟨w, .run i, stack⟩ (raising w' f stack) := by
  refine .of_keeps hk hw ho trivial (fun _ => rfl) ?_ (fun _ h => h)
    ⟨hm.stack.mono hk.grows, fun c hl => Or.inl (hc c hl)⟩
  intro c
  rw [inHand_run, hi]
  rfl

theorem turn_sound {a : Nat} {t : Turn} (hm : Fits past ⟨w, .run (.turn a t), stack⟩) :
    Sound past ⟨w, .run (.turn a t), stack⟩ (takeTurn w a t stack) := by
  have host : w.HostsTurn a stack := hm.control
  unfold takeTurn
  split
  · have hk := World.Keeps.advance w t.delay
    split
    · exact finish hw _ hk hm rfl rfl
    · exact raise hw _ hk hm rfl rfl (World.clear_of_none (ownLoop_hostsTurn host))
  · next d rest _ =>
    generalize d.outcome.number w.streams = numbered
    obtain ⟨outcome, next⟩ := numbered
    have hk : w.Keeps { w.advance d.delay with streams := next } := ⟨rfl, rfl, rfl, fun _ => rfl⟩
    refine .of_keeps hk hw rfl trivial ?_ (fun _ => rfl) ?_ ⟨⟨host, hm.stack.mono hk.grows⟩, ?_⟩
    · intro c
      simp [loops, doing, Frame.isLoopOf]
    · intro b hb
      simpa [doing] using hb
    · show a < w.attempts.size ∧ ownLoop stack = none
      exact ⟨host.1, ownLoop_hostsTurn host⟩

theorem unscheduled_sound {k : CopyTask} {f : Fault}
    (hm : Fits past ⟨w, .run (.unscheduled k f), stack⟩) :
    Sound past ⟨w, .run (.unscheduled k f), stack⟩ (unscheduled w k f stack) := by
  have hold : w.HoldsAttempt k.attempt stack := hm.control
  have hk := World.Keeps.logFor w (w.callOf k.attempt) .error
    (text "Unable to schedule body copy: " ++ f.message)
  exact handOn hw hk hm rfl trivial rfl
    (World.HoldsCall.mono hk.grows ⟨hw.attempts _ hold.1, hold.2⟩)

theorem receive_sound {a : Nat} {status : StatusCode} {headers : List Header} {body : Bytes}
    (hm : Fits past ⟨w, .run (.receive a status headers body), stack⟩) :
    Sound past ⟨w, .run (.receive a status headers body), stack⟩
      (receive w a status headers body stack) := by
  have hold : w.HoldsAttempt a stack := hm.control
  have hk := World.Keeps.addLogs w (receptionRecords w.config (w.requestOf (w.callOf a))
    (w.elapsed a) body.length status)
  have call := World.HoldsCall.mono hk.grows ⟨hw.attempts _ hold.1, hold.2⟩
  simp only [receive]
  split
  · exact handOn hw hk hm rfl trivial rfl call
  · exact handOn hw hk hm rfl trivial rfl call

theorem fail_sound {c : Nat} {context : FailureContext}
    (hm : Fits past ⟨w, .run (.fail c context), stack⟩) :
    Sound past ⟨w, .run (.fail c context), stack⟩ (fail w c context stack) := by
  have hold : w.HoldsCall c stack := hm.control
  have hk (message : Bytes) (r : Request) (k : Classifier) (records : List LogRecord) :
      w.Keeps ((((w.logFor c .debug message).setRequest c r).setClassifier c k).addLogs records) :=
    (((World.Keeps.logFor w c .debug message).trans (.setRequest _ c r)).trans
      (.setClassifier _ c k)).trans (.addLogs _ records)
  exact handOn hw (hk ..) hm rfl trivial rfl (hold.mono (hk ..).grows)

theorem judge_sound {c : Nat} {context : FailureContext} (answer : Except Fault Decision)
    (hm : Fits past ⟨w, .run (.fail c context), stack⟩) :
    Sound past ⟨w, .run (.fail c context), stack⟩
      ⟨w, .run (.settle c context.networkTime answer), stack⟩ :=
  handOn hw (.refl w) hm rfl trivial rfl hm.control

theorem react_sound {r : Reaction} (hm : Fits past ⟨w, .run (.react r), stack⟩) :
    Sound past ⟨w, .run (.react r), stack⟩ (react w r stack) := by
  have clear : w.Clear stack := hm.control
  unfold react
  split
  · exact finish hw _ (.refl w) hm rfl rfl
  · exact raise hw _ (.refl w) hm rfl rfl clear
  · next request onSuccess onError fault =>
    refine .of_keeps (.refl w) hw rfl trivial ?_ (fun _ => rfl) ?_ ⟨⟨clear, hm.stack⟩, ?_⟩
    · intro c
      simp [loops, doing, Frame.isLoopOf]
    · intro b hb
      simpa [doing] using hb
    · intro c hc
      exact clear c hc

theorem copy_sound {k : CopyTask} (hm : Fits past ⟨w, .run (.copy k), stack⟩) :
    Sound past ⟨w, .run (.copy k), stack⟩ (copy w k stack) := by
  have hold : w.HoldsAttempt k.attempt stack := hm.control
  have call : w.HoldsCall (w.callOf k.attempt) stack := ⟨hw.attempts _ hold.1, hold.2⟩
  simp only [copy]
  have events := copyBody_events k.stream.id k.stream.source k.length w.pool w.config.bodyBuffer
  generalize copyBody k.stream.id k.stream.source k.length w.pool w.config.bodyBuffer = copied
    at events
  have traced := tracedEvents_events w events
  have hk : w.Keeps { w.advance copied.elapsed with
      pool := copied.pool, trace := w.trace ++ tracedEvents w copied.trace } :=
    ⟨rfl, rfl, rfl, fun c => by
      simp only [World.answers, List.countP_eq_length_filter, told_append traced w.trace c]⟩
  split
  · exact handOn hw hk hm rfl trivial rfl (call.mono hk.grows)
  · exact handOn hw hk hm rfl trivial rfl (hold.mono hk.grows)

/-- Giving a body back unscheduled, with its stream still to be closed. -/
theorem refuse_sound {w' : World} {k : CopyTask} (f : Fault) (hk : w.Keeps w')
    (hm : Fits past ⟨w, .run (.schedule k), stack⟩) :
    Sound past ⟨w, .run (.schedule k), stack⟩
      ⟨w', .run (.unscheduled k f), .holding k.stream :: stack⟩ := by
  have hold : w.HoldsAttempt k.attempt stack := hm.control
  refine .of_keeps hk hw rfl trivial ?_ ?_ ?_ ⟨⟨trivial, hm.stack.mono hk.grows⟩, ?_⟩
  · intro c
    simp [loops, Frame.isLoopOf]
  · intro c
    show (if some (w'.callOf k.attempt) = some c then 1 else 0) = _
    rw [hk.callOf]
    rfl
  · intro b hb
    simpa using hb
  · exact hold.mono hk.grows

theorem schedule_sound {k : CopyTask} (hm : Fits past ⟨w, .run (.schedule k), stack⟩) :
    Sound past ⟨w, .run (.schedule k), stack⟩ (schedule w k stack) := by
  have hold : w.HoldsAttempt k.attempt stack := hm.control
  have noted : w.Keeps (w.note .submit) := .note w fun _ => rfl
  unfold schedule
  split
  · exact refuse_sound hw _ (.refl w) hm
  · next e he =>
    split
    · exact refuse_sound hw _ (.refl w) hm
    · rw [hw.inOrder e he]
      dsimp only
      split
      · exact refuse_sound hw _ noted hm
      · have even := enqueue_even hw he hold.1
        refine .aside even rfl trivial (fun _ => rfl) ?_ (fun _ h => h)
          ⟨hm.stack.mono even.grows, trivial⟩
        intro c
        exact enqueue_live he k c

theorem accept_sound {a : Nat} {o : Outcome Stream} {j : Instr} {s : Option Stream}
    (hm : Fits past ⟨w, .run (.deliver a o), stack⟩) (hr : (w.attemptAt a).resolved = false)
    (hp : (Control.run j).IsPlain) (hj : j.hand? (w.resolve a) = some (w.callOf a))
    (hf : j.Fits (w.resolve a) ((s.map Frame.holding).toList ++ stack)) :
    Sound past ⟨w, .run (.deliver a o), stack⟩
      ⟨w.resolve a, .run j, (s.map Frame.holding).toList ++ stack⟩ := by
  have ha : a < w.attempts.size := hm.control.1
  have even := resolve_even hw (a := a)
  refine .aside even rfl hp ?_ ?_ ?_ ⟨?_, hf⟩
  · intro c
    cases s <;> simp [loops, Frame.isLoopOf]
  · intro c
    have := resolve_live ha hr c
    rw [← hj] at this
    exact this
  · intro b hb
    cases s <;> simpa using hb
  · cases s with
    | none => exact hm.stack.mono even.grows
    | some s => exact ⟨trivial, hm.stack.mono even.grows⟩

theorem reply_sound {a : Nat} {r : Reply Stream}
    (hm : Fits past ⟨w, .run (.deliver a (.reply r)), stack⟩)
    (hr : (w.attemptAt a).resolved = false) :
    Sound past ⟨w, .run (.deliver a (.reply r)), stack⟩ (openReply (w.resolve a) a r stack) := by
  obtain ⟨ha, free⟩ := hm.control
  have even := resolve_even hw (a := a)
  have attempt : (w.resolve a).HoldsAttempt a stack :=
    World.HoldsAttempt.mono even.grows ⟨ha, (World.clear_of_none free).but _⟩
  have call : (w.resolve a).HoldsCall ((w.resolve a).callOf a) stack :=
    ⟨even.valid.attempts a attempt.1, attempt.2⟩
  have hand : some ((w.resolve a).callOf a) = some (w.callOf a) := by rw [w.callOf_resolve]
  unfold openReply
  split
  · refine accept_sound hw (s := r.stream) hm hr trivial hand ?_
    cases r.stream <;> exact call
  · split
    · exact accept_sound hw (s := none) hm hr trivial hand attempt
    · exact accept_sound hw (s := none) hm hr trivial hand attempt
    · exact accept_sound hw (s := none) hm hr trivial hand attempt

theorem deliver_sound {a : Nat} {o : Outcome Stream}
    (hm : Fits past ⟨w, .run (.deliver a o), stack⟩) :
    Sound past ⟨w, .run (.deliver a o), stack⟩ (deliver w a o stack) := by
  obtain ⟨ha, free⟩ := hm.control
  have even := resolve_even hw (a := a)
  have call : (w.resolve a).HoldsCall (w.callOf a) stack :=
    World.HoldsCall.mono even.grows ⟨hw.attempts a ha, (World.clear_of_none free).but _⟩
  simp only [deliver]
  split
  · have hk := (World.Keeps.logFor w (w.callOf a) .error
      (text "Transport resolved the same attempt twice, ignoring")).trans
        (.closeStream? _ o.stream?)
    exact finish hw _ hk hm rfl rfl
  · next hr =>
    have hr : (w.attemptAt a).resolved = false := by simpa using hr
    cases o with
    | authFailure message => exact accept_sound hw (s := none) hm hr trivial rfl call
    | failure f => exact accept_sound hw (s := none) hm hr trivial rfl call
    | reply r => exact reply_sound hw hm hr

theorem complete_sound {c : Nat} {result : Except RequestError Response}
    (hm : Fits past ⟨w, .run (.complete c result), stack⟩)
    (hr : Ready ⟨w, .run (.complete c result), stack⟩) :
    Sound past ⟨w, .run (.complete c result), stack⟩ (complete w c result stack) := by
  have hold : w.HoldsCall c stack := hm.control
  have hn : w.completedOf c = 0 := hr.undone c (by simp [inHand_run, Instr.hand?])
  have told {e : Event} (call : Call) (r : Reaction) (hd : call.completed = true)
      (hp : call.pending = (w.callAt c).pending) (he : ∀ d, e.answers d = (c == d)) :
      Sound past ⟨w, .run (.complete c result), stack⟩
        (doing ((w.setCall c call).note e) (.react r) stack) := by
    have even := complete_even hw hold.1 hn hd hp he
    have answers := answers_tell w call he
    refine .aside even rfl trivial (fun _ => rfl) ?_ (fun _ h => h)
      ⟨hm.stack.mono even.grows, (hold.2.mono even.grows).clear ?_⟩
    · intro d
      show w.unresolved d + w.queuedFor d + ((w.setCall c call).note e).answers d + 0 =
        w.unresolved d + w.queuedFor d + w.answers d + if some c = some d then 1 else 0
      simp only [answers, Option.some.injEq]
      omega
    · rw [answers, if_pos rfl]
      exact Nat.succ_pos _
  simp only [complete]
  split
  · next done =>
    unfold World.completedOf at hn
    rw [if_pos done] at hn
    cases hn
  · cases result with
    | ok response => exact told _ _ rfl rfl fun d => rfl
    | error error => exact told _ _ rfl rfl fun d => rfl

theorem settle_sound {c : Nat} {time : Int} {answer : Except Fault Decision}
    (hm : Fits past ⟨w, .run (.settle c time answer), stack⟩) :
    Sound past ⟨w, .run (.settle c time answer), stack⟩ (settle w c time answer stack) := by
  have hold : w.HoldsCall c stack := hm.control
  cases answer with
  | error f =>
    have hk := World.Keeps.logFor w c .error (text "Failure classification error: " ++ f.message)
    exact handOn hw hk hm rfl trivial rfl (hold.mono hk.grows)
  | ok decision =>
    cases decision with
    | final error => exact handOn hw (.refl w) hm rfl trivial rfl hold
    | retry reason =>
      have hk := World.Keeps.logFor w c .debug (text "Retrying (" ++ reason.label ++ text ")")
      have even := hk.even hw
      refine .of_even even (fun a => by simp [act]) ?_ (fun a => by simp [settle, doing, act])
        (fun _ => rfl) (fun d => ?_) (fun _ h => h) ⟨hm.stack.mono hk.grows, hold.mono hk.grows⟩
      · intro d
        simp only [does, act, settle, doing, Act.register.injEq, Act.grant.injEq]
      · simp only [live, settle, doing, hk.unresolved, hk.queuedFor, hk.answers]
        rfl

theorem takeTask_sound {w' : World} {i : Instr} {k : CopyTask} {f : Frame}
    (ht : takeTask w = some (k, w')) (ho : act ⟨w, .run i, []⟩ = .other) (hi : i.hand? w = none)
    (hf : f.Fits w' []) (hn : ownLoop [f] = none) (hl : ∀ c, f.isLoopOf c = false)
    (hs : ∀ a, f ≠ .sending a) :
    Sound past ⟨w, .run i, []⟩ ⟨w', .run (.copy k), [f]⟩ := by
  obtain ⟨queued, calls, attempts, trace, inOrder⟩ := World.takeTask_eq_some ht
  have callAt (c : Nat) : w'.callAt c = w.callAt c := by simp only [World.callAt, calls]
  have callOf (a : Nat) : w'.callOf a = w.callOf a := by
    simp only [World.callOf, World.attemptAt, attempts]
  have answers (c : Nat) : w'.answers c = w.answers c := by simp only [World.answers, trace]
  have even : w.Even w' := by
    refine ⟨⟨Nat.le_of_eq (by rw [calls]), Nat.le_of_eq (by rw [attempts]),
      fun a _ => callOf a, fun a _ hr => by rw [World.attemptAt, attempts]; exact hr,
      fun c => Nat.le_of_eq (answers c).symm⟩, ⟨?_, ?_, inOrder hw.inOrder⟩,
      by rw [attempts], ?_, ?_, ?_, ?_⟩
    · intro a ha
      rw [callOf, calls]
      exact hw.attempts a (attempts ▸ ha)
    · intro t ht
      rw [attempts]
      exact hw.tasks t (queued ▸ List.mem_cons_of_mem _ ht)
    all_goals
      intro c
      simp only [World.attemptsOf, World.performed, World.pendingOf, World.completedOf, attempts,
        calls, callAt, answers]
  refine .aside even ho trivial ?_ ?_ ?_ ⟨⟨hf, trivial⟩, ?_⟩
  · intro c
    simp [loops, hl]
  · intro c
    have : w.queuedFor c = w'.queuedFor c + if w'.callOf k.attempt = c then 1 else 0 := by
      simp only [World.queuedFor, queued, List.countP_cons, callOf, beq_iff_eq]
    have hand : inHand ⟨w', .run (.copy k), [f]⟩ c = if w'.callOf k.attempt = c then 1 else 0 := by
      simp only [inHand_run, Instr.hand?, Option.some.injEq]
    have none : inHand ⟨w, .run i, []⟩ c = 0 := by
      rw [inHand_run, hi]
      rfl
    simp only [live, hand, none, this, answers, World.unresolved, attempts]
    omega
  · intro a ha
    exact absurd (List.mem_singleton.1 ha).symm (hs a)
  · constructor
    · rw [attempts]
      exact hw.tasks k (queued ▸ List.mem_cons_self)
    · exact (World.clear_of_none hn).but _

theorem runQueue_sound {n : Nat} (hm : Fits past ⟨w, .run (.runQueue n), stack⟩) :
    Sound past ⟨w, .run (.runQueue n), stack⟩ (runQueue w n stack) := by
  have bottom : stack = [] := hm.control
  subst bottom
  unfold runQueue
  split
  · exact finish hw _ (.refl w) hm rfl rfl
  · next ht => exact takeTask_sound hw ht rfl rfl rfl rfl (fun _ => rfl) (by simp)

theorem serve_sound (hm : Fits past ⟨w, .run .serve, stack⟩) :
    Sound past ⟨w, .run .serve, stack⟩ (serve w stack) := by
  have bottom : stack = [] := hm.control
  subst bottom
  unfold serve
  split
  · exact finish hw _ (.refl w) hm rfl rfl
  · next ht => exact takeTask_sound hw ht rfl rfl rfl rfl (fun _ => rfl) (by simp)

theorem send_sound {a : Nat} {headers : List Header}
    (hm : Fits past ⟨w, .run (.send a headers), stack⟩) :
    Sound past ⟨w, .run (.send a headers), stack⟩ (send w a headers stack) := by
  obtain ⟨rest, rfl⟩ := hm.control
  have attempt : a < w.attempts.size := hm.stack.1.1
  have hk (headers : List Header) (timeout : Int) (t : Transport) :
      w.Keeps { w.note (.sent (w.callOf a) headers timeout) with transport := t } :=
    (World.Keeps.note w fun _ => rfl).trans (.transport _ t)
  simp only [send]
  split
  · refine .of_even ((hk ..).even hw) (fun b => by simp [act]) ?_ ?_ (fun _ => rfl) ?_ (fun _ h => h)
      ⟨hm.stack.mono (hk ..).grows, trivial⟩
    · intro c
      rw [does_of_ne (by simp [act, finished]), does_of_ne (by simp [act])]
    · intro c
      simp [act, finished]
    · intro c
      simp only [live, finished, (hk ..).unresolved, (hk ..).queuedFor, (hk ..).answers]
      rfl
  · refine .of_even ((hk ..).even hw) (fun b => by simp [act]) ?_ ?_ ?_ ?_ ?_
      ⟨⟨⟨a, rest, rfl⟩, hm.stack.mono (hk ..).grows⟩, ?_⟩
    · intro c
      rw [does_of_ne (by simp [act, doing]), does_of_ne (by simp [act])]
    · intro c
      simp [act, doing]
    · intro c
      simp [loops, doing, Frame.isLoopOf]
    · intro c
      simp only [live, doing, (hk ..).unresolved, (hk ..).queuedFor, (hk ..).answers]
      rfl
    · intro b hb
      simpa [doing] using hb
    · exact ⟨attempt, Or.inl ⟨rest, rfl⟩⟩

theorem open_sound {p : Performance} (hm : Fits past ⟨w, .run (.perform p), stack⟩) :
    Sound past ⟨w, .run (.perform p), stack⟩
      ⟨(w.openCall p).2, .run (.dispatch w.calls.size), stack⟩ := by
  have clear : w.Clear stack := hm.control
  have size : (w.openCall p).2.calls.size = w.calls.size + 1 := Array.size_push ..
  have grows : w.Grows (w.openCall p).2 :=
    ⟨by omega, Nat.le_refl _, fun _ _ => rfl, fun _ _ hr => hr, fun _ => Nat.le_refl _⟩
  have performed (c : Nat) := w.performed_openCall p c
  have same (c : Nat) : (w.openCall p).2.pendingOf c = w.pendingOf c ∧
      (w.openCall p).2.completedOf c = w.completedOf c := by
    unfold World.pendingOf World.completedOf
    rw [World.callAt_openCall]
    split
    · next h =>
      rw [w.callAt_of_le (Nat.le_of_eq h.symm)]
      exact ⟨rfl, rfl⟩
    · exact ⟨rfl, rfl⟩
  refine ⟨grows, ⟨?_, hw.tasks, hw.inOrder⟩, ⟨hm.stack.mono grows, ?_, ?_⟩, ?_, ?_, ?_, ?_, ?_, ?_, ?_,
    ?_, ?_, fun c hb => by simp [act] at hb, fun _ h => Or.inl h⟩
  · intro a ha
    have := hw.attempts a ha
    rw [size]
    exact Nat.lt_succ_of_lt this
  · rw [size]
    exact Nat.lt_succ_self _
  · exact (clear.mono grows).but _
  · intro c
    show w.unresolved c + w.queuedFor c + w.answers c +
      (if some w.calls.size = some c then 1 else 0) + 0 + _ = _ + 0 + 0 + _
    rw [performed]
    simp only [Option.some.injEq]
    show _ = w.unresolved c + w.queuedFor c + w.answers c + 0 + 0 + _
    omega
  · intro c
    rw [(same c).1]
    rfl
  · intro c
    rfl
  · intro c
    rfl
  · intro c
    show (if Act.register w.calls.size = .register c then 1 else 0) + w.performed c = 0 + _
    rw [performed]
    simp only [Act.register.injEq]
    omega
  · intro c
    rfl
  · intro c
    rw [(same c).2]
    rfl
  · intro c
    rfl
  · intro a ha hb
    exact absurd ha (Nat.not_lt.2 hb)

theorem perform_sound {p : Performance} (hm : Fits past ⟨w, .run (.perform p), stack⟩) :
    Sound past ⟨w, .run (.perform p), stack⟩ (perform w p stack) := by
  have clear : w.Clear stack := hm.control
  unfold perform
  split
  · exact finish hw _ (.refl w) hm rfl rfl
  · split
    · exact raise hw _ (.refl w) hm rfl rfl clear
    · split
      · exact raise hw _ (.refl w) hm rfl rfl clear
      · exact open_sound hw hm

theorem dispatch_sound {c : Nat} (hm : Fits past ⟨w, .run (.dispatch c), stack⟩)
    (hr : Ready ⟨w, .run (.dispatch c), stack⟩) :
    Sound past ⟨w, .run (.dispatch c), stack⟩ (dispatch w c stack) := by
  have hold : w.HoldsCall c stack := hm.control
  have recount := setCall_recount hw ((w.callAt c).register).2 hold.1 rfl
  have registers (d : Nat) :
      does ⟨w, .run (.dispatch c), stack⟩ (.register d) = if c = d then 1 else 0 := by
    simp [does, act]
  have closes (d : Nat) : closes ⟨w, .run (.dispatch c), stack⟩ d = 0 := by
    simp [Machine.closes, act]
  have pending (d : Nat) : (w.setCall c ((w.callAt c).register).2).pendingOf d +
      does ⟨w, .run (.dispatch c), stack⟩ (.retire d) =
      w.pendingOf d + does ⟨w, .run (.dispatch c), stack⟩ (.register d) := by
    rw [registers, does_of_ne (by simp [act]), World.pendingOf, w.callAt_setCall _ hold.1]
    split
    · next h => rw [← h]; rfl
    · rfl
  have hand (d : Nat) : 0 + does ⟨w, .run (.dispatch c), stack⟩ (.register d) =
      inHand ⟨w, .run (.dispatch c), stack⟩ d := by
    rw [registers, inHand_run, Instr.hand?, Nat.zero_add]
    simp only [Option.some.injEq]
  unfold dispatch Call.register
  dsimp only
  split
  · next first =>
    have first : w.pendingOf c = 0 := by simpa [World.pendingOf] using first
    have idle := hr.idle c first
    have clear : w.Clear stack := by
      intro d hd
      rcases hold.2 d hd with rfl | ha
      · exact absurd idle (Nat.ne_of_gt (loops_pos_of_ownLoop hd))
      · exact ha
    have opens (d : Nat) : opens ⟨w, .run (.dispatch c), stack⟩ d = if c = d then 1 else 0 := by
      simp only [Machine.opens, act, Act.register.injEq]
      by_cases h : c = d
      · subst h
        simp [first]
      · simp [h]
    refine .of_recount recount (by simp [act]) pending hand (by simp [act, doing]) ?_ ?_ ?_
      ⟨⟨⟨Nat.lt_of_lt_of_le hold.1 recount.grows.calls, clear.mono recount.grows⟩,
        hm.stack.mono recount.grows⟩, stack, rfl⟩
    · intro d
      rw [closes, opens]
      simp [loops, doing, Frame.isLoopOf, List.countP_cons]
    · intro d
      rw [closes, opens, does_of_ne (a := .retire d) (by simp [act])]
      simp [does, act, doing]
    · intro a ha
      simpa [doing] using ha
  · next more =>
    have more : w.pendingOf c ≠ 0 := by simpa [World.pendingOf] using more
    have opens (d : Nat) : opens ⟨w, .run (.dispatch c), stack⟩ d = 0 := by
      simp only [Machine.opens, act, Act.register.injEq]
      refine if_neg ?_
      rintro ⟨rfl, h⟩
      exact more h
    have plain := @act_of_plain (finished (w.setCall c ((w.callAt c).register).2) stack) trivial
    refine .of_recount recount (by simp [act]) pending hand (fun d => (plain d).2) ?_ ?_
      (fun _ h => h) ⟨hm.stack.mono recount.grows, trivial⟩
    · intro d
      rw [closes, opens]
      rfl
    · intro d
      rw [closes, opens, does_of_ne (a := .retire d) (by simp [act])]
      exact does_of_ne (plain d).1

theorem begin_sound {c : Nat} (hm : Fits past ⟨w, .run (.begin c), stack⟩) :
    Sound past ⟨w, .run (.begin c), stack⟩ (begin w c stack) := by
  obtain ⟨rest, rfl⟩ := hm.control
  have hc : c < w.calls.size := hm.stack.1.1
  obtain ⟨grows, valid, size, new⟩ := openAttempt_grows hw hc
  have begins (d : Nat) :
      does ⟨w, .run (.begin c), .attempts c :: rest⟩ (.begin d) = if c = d then 1 else 0 := by
    simp [does, act]
  have live (d : Nat) : (w.openAttempt c).2.unresolved d + (w.openAttempt c).2.queuedFor d +
      (w.openAttempt c).2.answers d =
      w.unresolved d + w.queuedFor d + w.answers d + if c = d then 1 else 0 := by
    have : (w.openAttempt c).2.queuedFor d = w.queuedFor d := by
      refine List.countP_congr fun k hk => ?_
      rw [grows.callOf _ (hw.tasks k hk)]
    rw [this, w.unresolved_openAttempt]
    show _ + _ + w.answers d = _
    omega
  simp only [begin]
  split
  · next f hf =>
    have hf : CacheEntry.conditionalHeaders (w.requestOf c).cache = .error f := hf
    have fresh : ((w.openAttempt c).2.attemptAt w.attempts.size).resolved = false := by
      simp [World.attemptAt_openAttempt]
    have even := resolve_even valid (a := w.attempts.size)
    have taken := resolve_live (a := w.attempts.size) (by omega) fresh
    refine .of_begin (grows.trans even.grows) even.valid (even.size.trans size)
      ((World.callOf_resolve ..).trans new) ?_ rfl (fun _ => rfl) ?_ (fun _ => rfl)
      (by simp [act, doing]) ?_ (fun _ h => Or.inl h)
      ⟨hm.stack.mono (grows.trans even.grows), hc, ?_⟩
    · intro d
      exact (even.attemptsOf d).trans (w.attemptsOf_openAttempt c d)
    · intro d
      have := taken d
      rw [new, live] at this
      exact this
    · intro d
      rw [does_of_ne (by simp [act, doing])]
      simp only [misses, hf, Nat.zero_add]
    · intro d hd
      exact Or.inl (Option.some.inj hd).symm
  · next headers hh =>
    have hh : CacheEntry.conditionalHeaders (w.requestOf c).cache = .ok headers := hh
    refine .of_begin grows valid size new (w.attemptsOf_openAttempt c) rfl (fun _ => rfl) ?_ ?_
      (by simp [act, doing]) ?_ ?_
      ⟨⟨⟨?_, rest, ?_⟩, hm.stack.mono grows⟩, .attempts c :: rest, rfl⟩
    · intro d
      exact live d
    · intro d
      simp [loops, doing, Frame.isLoopOf, List.countP_cons]
    · intro d
      simp only [misses, hh, Nat.add_zero]
      show (if Act.send ((w.openAttempt c).2.callOf w.attempts.size) = .send d then 1 else 0) = _
      rw [new]
      simp only [Act.send.injEq]
    · intro a ha
      simp only [doing, List.mem_cons, Frame.sending.injEq, reduceCtorEq, false_or] at ha ⊢
      exact ha.symm
    · show w.attempts.size < (w.openAttempt c).2.attempts.size
      omega
    · show _ = Frame.attempts ((w.openAttempt c).2.callOf w.attempts.size) :: rest
      rw [new]

theorem exec_sound {i : Instr} (hm : Fits past ⟨w, .run i, stack⟩)
    (hr : Ready ⟨w, .run i, stack⟩) : Sound past ⟨w, .run i, stack⟩ (exec w i stack) := by
  cases i with
  | perform p => exact perform_sound hw hm
  | dispatch c => exact dispatch_sound hw hm hr
  | begin c => exact begin_sound hw hm
  | send a headers => exact send_sound hw hm
  | turn a t => exact turn_sound hw hm
  | deliver a o => exact deliver_sound hw hm
  | schedule k => exact schedule_sound hw hm
  | unscheduled k f => exact unscheduled_sound hw hm
  | copy k => exact copy_sound hw hm
  | receive a status headers body => exact receive_sound hw hm
  | fail c context => exact fail_sound hw hm
  | settle c time answer => exact settle_sound hw hm
  | complete c result => exact complete_sound hw hm hr
  | react r => exact react_sound hw hm
  | runQueue n => exact runQueue_sound hw hm
  | serve => exact serve_sound hw hm

end

end RequestFlow.Machine
