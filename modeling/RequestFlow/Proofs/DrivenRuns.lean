import RequestFlow.Proofs.Raising
import RequestFlow.Proofs.Refinement

/-!
# Runs that are driven from outside

A session works a network with one machine after the other, and none of them is taken up again once
it was left.  Such a run is a run in which transports resolve what they were handed.  Once the outcome
of a call is decided no attempt of it is sent any more, and once the thread that holds the outcome is
left, or has told it, nothing more is told about the call either.

    what waits at the transport was handed to it                              (Driven)
    an operation that goes on with what was performed is such a run           (Driven.begins)
    a decided call sends nothing                                              (Decided.step)
    machines that come later tell nothing of it                               (Decided.goes)
-/

namespace RequestFlow

/-- The operation lets the transport and the executor go on, or lets time pass. -/
def Operation.Drives : Operation → Prop
  | .resolve | .runTasks | .refuseTasks _ | .deferAttempts _ | .advance _ => True
  | _ => False

/-- The machine in which the worker, if there is one, runs what is queued. -/
def World.server (w : World) : Machine :=
  match w.executor with
  | none => Machine.finished w []
  | some e => if e.hasWorker then Machine.doing w .serve [] else Machine.finished w []

namespace Network

/-- The network after the machine, beside other threads, has taken at most `n` steps. -/
def ran (rest : List Thread) (past : List Machine) (n : Nat) (m : Machine) : Network :=
  ⟨(Machine.run n m).world, (Machine.run n m).thread :: rest, trail n m ++ past⟩

/-- The network after a machine has come to work in it for at most `n` steps. -/
def goes (s : Network) (n : Nat) (m : Machine) : Network :=
  if m.isIdle then { s with world := m.world } else ran s.threads s.past n m

/-- The network after an operation: its machine has worked, and the worker's after it. -/
def applies (s : Network) (op : Operation) : Network :=
  let carried := s.goes (s.world.budget op.performs) (s.world.begin op)
  carried.goes (carried.world.budget 0) carried.world.server

/-- The machine may come to work in the network, after the world was changed a little. -/
structure Begins (s : Network) (m : Machine) : Prop where
  meanwhile : Meanwhile s.world m.world
  waiting : m.world.transport.waiting ⊆ s.world.transport.waiting
  arrives : m.isIdle = false →
    Arrival m.world m.thread ∧ ∀ a ∈ m.turns, 0 < s.handed a

/-- Transports resolve what they were handed, and so was all that waits there. -/
structure Driven (s : Network) : Prop where
  served : s.Served
  waiting : ∀ a ∈ s.world.transport.waiting, 0 < s.handed a

/-- The call was answered, or a thread has its result in hand. -/
def Decided (s : Network) (c : Nat) : Prop := 0 < s.world.answers c + s.total fun m => m.ending c

end Network

/-! ## What waits at the transport -/

namespace Machine

variable {w : World} {stack : List Frame}

theorem waiting_nextTurn (t : Transport) : t.nextTurn.2.waiting = t.waiting := by
  unfold Transport.nextTurn
  split <;> rfl

theorem taken_transport {w' : World} {k : CopyTask} (h : takeTask w = some (k, w')) :
    w'.transport = w.transport := by
  unfold takeTask at h
  split at h
  · cases h
  · split at h
    · cases h
    · cases h
      rfl

/-- An instruction changes the transport only by handing over. -/
theorem exec_transport {i : Instr} (hs : ∀ a headers, i ≠ .send a headers) :
    (exec w i stack).world.transport = w.transport := by
  cases i with
  | send a headers => exact absurd rfl (hs a headers)
  | deliver a o =>
    simp only [exec, deliver]
    split
    · cases o.stream? <;> rfl
    · cases o with
      | authFailure message => rfl
      | failure f => rfl
      | reply r =>
        simp only [openReply]
        repeat' split
        all_goals rfl
  | runQueue n =>
    simp only [exec, runQueue]
    split
    · rfl
    · next taken => exact taken_transport taken
  | serve =>
    simp only [exec, serve]
    split
    · rfl
    · next taken => exact taken_transport taken
  | perform _ | dispatch _ | begin _ | turn _ _ | schedule _ | unscheduled _ _ | copy _
  | receive _ _ _ _ | fail _ _ | settle _ _ _ | complete _ _ | react _ =>
    simp only [exec, perform, dispatch, begin, takeTurn, schedule, unscheduled, copy, receive, fail,
      settle, complete, react]
    repeat' split
    all_goals rfl

/-- What waits at the transport was waiting or is handed over now. -/
theorem waiting_step {m : Machine} {a : Nat} (h : a ∈ m.step.world.transport.waiting) :
    a ∈ m.world.transport.waiting ∨ m.hands a = 1 := by
  obtain ⟨w, control, stack⟩ := m
  cases control with
  | run i =>
    by_cases sends : ∃ b headers, i = .send b headers
    · obtain ⟨b, headers, rfl⟩ := sends
      have h : a ∈ (send w b headers stack).world.transport.waiting := h
      unfold send at h
      dsimp only at h
      split at h
      · rcases List.mem_append.1 h with old | new
        · exact .inl old
        · exact .inr (if_pos (List.mem_singleton.1 new).symm)
      · have h : a ∈ (((w.note _).transport.noteSent headers _).enter.nextTurn).2.waiting := h
        rw [waiting_nextTurn] at h
        exact .inl h
    · have same : (exec w i stack).world.transport = w.transport :=
        exec_transport fun b headers hi => sends ⟨b, headers, hi⟩
      exact .inl (same ▸ h)
  | done x =>
    cases stack with
    | nil => exact .inl h
    | cons f stack =>
      refine .inl ?_
      cases f with
      | attempts c =>
        simp only [step, resume, nextAttempt] at h
        split at h <;> exact h
      | submitting k fails => cases fails <;> exact h
      | reacting fault => cases fault <;> exact h
      | sending _ | nested | turn _ _ | holding _ | answering _ | queue _ | worker => exact h
  | raised fault =>
    cases stack with
    | nil => exact .inl h
    | cons f stack =>
      refine .inl ?_
      cases f with
      | sending b =>
        simp only [step, unwind] at h
        split at h <;> exact h
      | holding _ | submitting _ _ | worker | attempts _ | nested | turn _ _ | reacting _
      | answering _ | queue _ => exact h

/-- What the transport saw stays seen. -/
theorem Moves.timeouts_extended {m m' : Machine} (h : m.Moves m') (c : Nat) :
    m.world.timeouts c <+: m'.world.timeouts c := by
  obtain ⟨events, trace, -⟩ := h.passes.trace
  unfold World.timeouts
  rw [trace, List.filterMap_append]
  exact List.prefix_append _ _

end Machine

namespace Network

variable {s : Network} {c n : Nat} {m : Machine} {w : World} {t : Thread} {rest : List Thread}
  {past : List Machine}

/-! ## Driven runs -/

theorem goes_of_idle (h : m.isIdle = true) (n : Nat) : s.goes n m = { s with world := m.world } :=
  if_pos h

theorem goes_of_busy (h : m.isIdle = false) (n : Nat) : s.goes n m = ran s.threads s.past n m :=
  if_neg (by simp [h])

theorem ran_of_busy (h : m.isIdle = false) (n : Nat) :
    ran rest past (n + 1) m = ran rest (m :: past) n m.step := by
  have first : Machine.run (n + 1) m = Machine.run n m.step := if_neg (by simp [h])
  have trail : trail (n + 1) m = trail n m.step ++ [m] := if_neg (by simp [h])
  rw [ran, ran, first, trail, List.append_assoc, List.singleton_append]

theorem goes_world (s : Network) (n : Nat) (m : Machine) :
    (s.goes n m).world = (Machine.run n m).world := by
  unfold goes
  split
  · next idle => rw [World.run_of_isIdle idle]
  · rfl

theorem Driven.step (h : Driven ⟨m.world, m.thread :: rest, past⟩) :
    Driven ⟨m.step.world, m.step.thread :: rest, m :: past⟩ := by
  refine ⟨h.served.next (.move (l := []) (.step m)), fun a ha => ?_⟩
  rw [handed_cons]
  rcases Machine.waiting_step ha with old | new
  · have := h.waiting a old
    unfold handed at this
    dsimp only at this
    omega
  · omega

/-- The machine works, and nothing else moves. -/
theorem Driven.run (h : Driven ⟨m.world, m.thread :: rest, past⟩) (n : Nat) :
    Driven (ran rest past n m) :=
  run_induction (P := Driven) (l := []) (fun _ _ h => h.step) n m h

theorem Driven.comes (h : Driven s) (hb : s.Begins m) :
    Driven { s with world := m.world } ∧
      (m.isIdle = false → Driven ⟨m.world, m.thread :: s.threads, s.past⟩) := by
  have changed : Driven { s with world := m.world } :=
    ⟨h.served.next (.meanwhile _ hb.meanwhile), fun a ha => h.waiting a (hb.waiting ha)⟩
  refine ⟨changed, fun busy => ?_⟩
  obtain ⟨arrival, turns⟩ := hb.arrives busy
  exact ⟨changed.served.next (.arrive m.thread arrival turns), changed.waiting⟩

theorem Driven.goes (h : Driven s) (hb : s.Begins m) (n : Nat) : Driven (s.goes n m) := by
  obtain ⟨changed, arrived⟩ := h.comes hb
  cases busy : m.isIdle with
  | true => exact goes_of_idle busy n ▸ changed
  | false => exact goes_of_busy busy n ▸ (arrived busy).run n

theorem Driven.sane (h : Driven s) : s.Sane := h.served.reachable.sane

/-- What was told, and what the transport saw, stays so. -/
theorem extended_run (n : Nat) (m : Machine) (c : Nat) :
    m.world.timeouts c <+: (Machine.run n m).world.timeouts c ∧
      m.world.told c <+: (Machine.run n m).world.told c := by
  induction n generalizing m with
  | zero => exact ⟨List.prefix_rfl, List.prefix_rfl⟩
  | succ n ih =>
    unfold Machine.run
    split
    · exact ⟨List.prefix_rfl, List.prefix_rfl⟩
    · have moves : m.Moves m.step := .step m
      obtain ⟨timeouts, told⟩ := ih m.step
      exact ⟨(moves.timeouts_extended c).trans timeouts, (moves.told_prefix c).trans told⟩

theorem timeouts_extended_goes (hb : s.Begins m) (n c : Nat) :
    s.world.timeouts c <+: (s.goes n m).world.timeouts c := by
  rw [goes_world, ← hb.meanwhile.timeouts c]
  exact (extended_run n m c).1

/-! ## Decided calls -/

/-- A decided call hands nothing over. -/
theorem Decided.sends (h : s.Decided c) (hd : s.Driven) {t : Thread} (ht : t ∈ s.threads) :
    (t.on s.world).does (.send c) = 0 := by
  by_contra some
  have sum := le_total ht fun m => m.does (.send c)
  have open' := hd.served.orderly.unresolved_pos hd.sane (c := c) (by omega)
  have hand : s.total (fun m => m.ending c) ≤ s.total fun m => m.inHand c :=
    total_mono fun t _ => (t.on s.world).ending_le_inHand c
  have one := hd.sane.one c
  have performed := s.world.performed_le_one c
  unfold Decided at h
  omega

theorem Decided.step (h : Decided ⟨m.world, m.thread :: rest, past⟩ c)
    (hd : Driven ⟨m.world, m.thread :: rest, past⟩) :
    Decided ⟨m.step.world, m.step.thread :: rest, m :: past⟩ c ∧
      m.step.world.timeouts c = m.world.timeouts c := by
  have sends : (m.thread.on m.world).does (.send c) = 0 := h.sends hd (t := m.thread) (by simp)
  exact ⟨Nat.lt_of_lt_of_le h (ending_move (u := []) (t := m.thread) hd.sane (.step m) c),
    timeouts_of_other (t := m.thread) (.step m) sends⟩

/-- A decided call stays decided, and the transport sees no more of it. -/
theorem Decided.run (h : Decided ⟨m.world, m.thread :: rest, past⟩ c)
    (hd : Driven ⟨m.world, m.thread :: rest, past⟩) (n : Nat) :
    (ran rest past n m).Decided c ∧
      (Machine.run n m).world.timeouts c = m.world.timeouts c := by
  have ran := run_induction (l := []) (r := rest)
    (P := fun s => s.Driven ∧ s.Decided c ∧ s.world.timeouts c = m.world.timeouts c)
    (fun _ x hx =>
      have stepped := hx.2.1.step hx.1
      ⟨hx.1.step, stepped.1, stepped.2.trans hx.2.2⟩) n m ⟨hd, h, rfl⟩
  exact ran.2

/-- Where others have the result in hand, or it was told, the machine tells nothing of the call. -/
theorem Driven.told_run (hd : Driven ⟨m.world, m.thread :: rest, past⟩)
    (h : 0 < m.world.answers c + total ⟨m.world, rest, past⟩ fun m => m.ending c) (n : Nat) :
    (Machine.run n m).world.told c = m.world.told c := by
  have sane := (hd.run n).sane
  have others : total ⟨m.world, rest, past⟩ (fun m => m.ending c) ≤
      (ran rest past n m).total fun m => m.inHand c := by
    -- what a thread has in hand does not depend on the world
    have same : total ⟨m.world, rest, past⟩ (fun m => m.ending c) =
        total ⟨(Machine.run n m).world, rest, trail n m ++ past⟩ fun m => m.ending c := rfl
    have arrived := total_arrive ⟨(Machine.run n m).world, rest, trail n m ++ past⟩
      (Machine.run n m).thread fun m => m.inHand c
    have hand : total ⟨(Machine.run n m).world, rest, trail n m ++ past⟩ (fun m => m.ending c) ≤
        total ⟨(Machine.run n m).world, rest, trail n m ++ past⟩ fun m => m.inHand c :=
      total_mono fun t _ => Machine.ending_le_inHand _ c
    rw [same]
    exact hand.trans (arrived ▸ Nat.le_add_left _ _)
  have one := sane.one c
  have performed := (Machine.run n m).world.performed_le_one c
  have answers := m.world.answers_eq_length c
  have answers' := (Machine.run n m).world.answers_eq_length c
  refine ((extended_run n m c).2.eq_of_length_le ?_).symm
  dsimp only [ran] at one others
  omega

/-- Machines that come later leave a decided call as it is. -/
theorem Decided.goes (h : s.Decided c) (hd : s.Driven) (hb : s.Begins m) (n : Nat) :
    (s.goes n m).Decided c ∧ (s.goes n m).world.timeouts c = s.world.timeouts c ∧
      (s.goes n m).world.told c = s.world.told c := by
  have answers := hb.meanwhile.answers c
  have timeouts := hb.meanwhile.timeouts c
  have told := hb.meanwhile.told c
  have before : 0 < m.world.answers c + total ⟨m.world, s.threads, s.past⟩ fun m => m.ending c := by
    rw [answers]
    exact h
  cases busy : m.isIdle with
  | true =>
    rw [goes_of_idle busy]
    exact ⟨before, timeouts, told⟩
  | false =>
    have arrived := (hd.comes hb).2 busy
    have decided : Decided ⟨m.world, m.thread :: s.threads, s.past⟩ c := by
      have := total_arrive ⟨m.world, s.threads, s.past⟩ m.thread fun m => m.ending c
      unfold Decided
      dsimp only at this ⊢
      omega
    obtain ⟨still, same⟩ := decided.run arrived n
    rw [goes_of_busy busy]
    exact ⟨still, same.trans timeouts, (arrived.told_run before n).trans told⟩

/-! ## Operations -/

/-- It is in order that nothing happens. -/
theorem Driven.rests (h : Driven s) : Meanwhile s.world s.world :=
  ⟨rfl, rfl, ⟨[], by simp [Trace.addLogs]⟩, .refl _, h.sane.valid.inOrder⟩

/-- An instruction that works through the tasks may always begin. -/
theorem Driven.begins_tasks (h : Driven s) {x : Instr} (hx : x = .serve ∨ x = .runQueue 0) :
    s.Begins (Machine.doing s.world x []) := by
  refine ⟨h.rests, fun _ => id, fun _ => ?_⟩
  rcases hx with rfl | rfl
  · exact ⟨.serve, fun a ha => by cases ha⟩
  · exact ⟨.runQueue, fun a ha => by cases ha⟩

theorem Driven.begins_perform (h : Driven s) (p : Performance) :
    s.Begins (Machine.doing s.world (.perform p) []) :=
  ⟨h.rests, fun _ => id, fun _ => ⟨.perform p, fun a ha => by cases ha⟩⟩

/-- An operation that goes on with what was performed. -/
theorem Driven.begins (h : Driven s) {op : Operation} (hop : op.Drives) :
    s.Begins (s.world.begin op) := by
  have ⟨_, _, trace, _, inOrder⟩ := h.rests
  cases op with
  | runTasks => exact h.begins_tasks (.inr rfl)
  | refuseTasks on =>
    refine ⟨⟨rfl, rfl, trace, ?_, ?_⟩, fun _ => id, fun busy => by cases busy⟩
    · unfold World.queued World.begin World.mapExecutor
      cases s.world.executor <;> exact .refl _
    · intro e he
      obtain ⟨e, known, rfl⟩ := Option.map_eq_some_iff.1 he
      exact inOrder e known
  | deferAttempts on =>
    exact ⟨⟨rfl, rfl, trace, .refl _, inOrder⟩, fun _ => id, fun busy => by cases busy⟩
  | advance ns =>
    exact ⟨⟨rfl, rfl, trace, .refl _, inOrder⟩, fun _ => id, fun busy => by cases busy⟩
  | resolve =>
    unfold World.begin
    cases waiting : s.world.transport.waiting with
    | nil => exact ⟨h.rests, fun _ => id, fun busy => by cases busy⟩
    | cons a others =>
      have handed : 0 < s.handed a := h.waiting a (waiting ▸ List.mem_cons_self)
      have inside : a < s.world.attempts.size := by
        by_contra out
        have := h.served.orderly.within a (Nat.not_lt.1 out)
        omega
      refine ⟨⟨rfl, rfl, trace, .refl _, inOrder⟩, ?_, fun _ => ⟨.turn a _ _ inside, ?_⟩⟩
      · intro b hb
        have hb : b ∈ (({ s.world.transport with waiting := others } : Transport).nextTurn).2.waiting :=
          hb
        rw [Machine.waiting_nextTurn] at hb
        exact waiting ▸ List.mem_cons_of_mem a hb
      · intro b hb
        obtain rfl := List.mem_singleton.1 hb
        exact handed
  | _ => exact hop.elim

/-- The worker may always begin. -/
theorem Driven.begins_server (h : Driven s) : s.Begins s.world.server := by
  have idle : s.Begins (Machine.finished s.world []) :=
    ⟨h.rests, fun _ => id, fun busy => by cases busy⟩
  unfold World.server
  split
  · exact idle
  · split
    · exact h.begins_tasks (.inl rfl)
    · exact idle

theorem applies_world (s : Network) (op : Operation) :
    (s.applies op).world = (s.world.apply op).2 := by
  have served (w : World) : (Machine.run (w.budget 0) w.server).world = w.serveAll := by
    have idle : (Machine.run (w.budget 0) (Machine.finished w [])).world = w := by
      rw [World.run_of_isIdle rfl]
      rfl
    unfold World.server World.serveAll
    cases w.executor with
    | none => exact idle
    | some e =>
      dsimp only
      split
      · rfl
      · exact idle
  rw [applies, goes_world, served, goes_world]
  rfl

end Network

end RequestFlow
