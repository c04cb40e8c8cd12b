import RequestFlow.Proofs.SingleCall

/-!
# Attempts that are attended to

A decisive turn brings an outcome and returns, or else raises a fault.  While the transport takes only
such turns, an attempt without an outcome is always attended to: it is being handed over, or its turn
is being taken, or an outcome or a fault is on its way to it.  A fault is on its way only to such an
attempt, or out of a continuation that was told the result.  So no fault passes an attempt before the
call is answered, and no attempt is left without an outcome by a thread at rest.

    a step of a lone thread leaves every attempt attended to                   (Alone.attends)
    a step leaves no call unanswered                                           (Attends.calm)
    who runs the tasks leaves none, unless the call was answered               (Drains.step)
    so the call was answered once the tasks were run                           (Faithful.answered)
-/

namespace RequestFlow

/-- The turn brings an outcome, or else raises a fault.  The turns of a transport that computes one
result for each attempt are so: it delivers the result, or raises a fault instead. -/
def Turn.Decisive (t : Turn) : Prop := t.deliveries = [] ↔ t.fault ≠ none

instance (t : Turn) : Decidable t.Decisive := inferInstanceAs (Decidable (_ ↔ _))

/-- An outcome or a fault is on its way to the attempt, or the transport will see to that. -/
inductive Serves (a : Nat) : Control → List Frame → Prop
  | send (headers : List Header) (stack : List Frame) : Serves a (.run (.send a headers)) stack
  | turn {t : Turn} (h : t.Decisive) (stack : List Frame) :
    Serves a (.run (.turn a t)) (.nested :: .sending a :: stack)
  | deliver (o : Outcome Stream) (stack : List Frame) : Serves a (.run (.deliver a o)) stack
  | returns (f : Fault) (stack : List Frame) :
    Serves a (.raised f) (.nested :: .sending a :: stack)
  | reaches (f : Fault) (stack : List Frame) : Serves a (.raised f) (.sending a :: stack)

/-- Faults are raised for attempts without an outcome, or once the call was answered. -/
def Control.Attended (w : World) (stack : List Frame) : Control → Prop
  | .run (.send a _) => (w.attemptAt a).resolved = false
  | .run (.turn a t) => t.fault = none ∨ t.deliveries = [] ∧ (w.attemptAt a).resolved = false
  | .run (.react _) => 0 < w.answers 0
  | .raised f => 0 < w.answers 0 ∨ ∃ a, (w.attemptAt a).resolved = false ∧ Serves a (.raised f) stack
  | _ => True

/-- What remains of a turn or a reaction raises no fault. -/
def Frame.Attended : Frame → Prop
  | .turn _ t => t.fault = none
  | .reacting fault => fault = none
  | _ => True

structure Machine.Attends (m : Machine) : Prop where
  served : ∀ a < m.world.attempts.size, (m.world.attemptAt a).resolved = false →
    Serves a m.control m.stack
  control : m.control.Attended m.world m.stack
  frames : ∀ f ∈ m.stack, f.Attended

def Instr.takesTasks : Instr → Bool
  | .runQueue _ | .serve => true
  | _ => false

def Frame.takesTasks : Frame → Bool
  | .queue _ | .worker => true
  | _ => false

/-- The machine has run the tasks when it rests, unless the call was answered. -/
inductive Machine.Drains (m : Machine) : Prop
  | takes (x : Instr) (h : m.control = .run x) (hx : x.takesTasks = true)
  | under (f : Frame) (h : f ∈ m.stack) (hf : f.takesTasks = true)
  | drained (h : m.world.queued = []) (idle : m.isIdle = true)
  | answered (h : 0 < m.world.answers 0)

/-- The transport takes decisive turns, and the machines have worked accordingly. -/
structure Network.Faithful (past : List Machine) (m : Machine) : Prop where
  attends : m.Attends
  script : ∀ t ∈ m.world.transport.script, t.Decisive
  calm : ∀ x ∈ past, ¬ x.LeavesUnanswered 0

/-! ## Lemmas -/

@[simp]
theorem Turn.decisive_deliver (o : Outcome Source) (delay : Int) : (deliver o delay).Decisive := by
  simp [Decisive, deliver]

@[simp]
theorem Turn.decisive_raise (f : Fault) (delay : Int) : (raise f delay).Decisive := by
  simp [Decisive, raise]

theorem decisive_nextTurn {t : Transport} (h : ∀ x ∈ t.script, x.Decisive) :
    t.nextTurn.1.Decisive := by
  unfold Transport.nextTurn
  split
  · exact Turn.decisive_deliver _ _
  · next turn rest script =>
    exact h turn (by rw [script]; exact List.mem_cons_self)

theorem Turn.Decisive.quiet_or_empty {t : Turn} (h : t.Decisive) :
    t.fault = none ∨ t.deliveries = [] := by
  by_cases quiet : t.fault = none
  · exact .inl quiet
  · exact .inr (h.2 quiet)

theorem Serves.eq_of_turn {a b : Nat} {t : Turn} {stack : List Frame}
    (h : Serves b (.run (.turn a t)) stack) :
    b = a ∧ t.Decisive ∧ ∃ rest, stack = .nested :: .sending a :: rest := by
  cases h with
  | turn decisive rest => exact ⟨rfl, decisive, rest, rfl⟩

namespace World

variable {w : World}

/-- Resolving the one attempt that has no outcome settles all. -/
theorem settled_resolve {a : Nat}
    (other : ∀ b < w.attempts.size, (w.attemptAt b).resolved = false → b = a) {b : Nat}
    (hb : b < (w.resolve a).attempts.size) : ((w.resolve a).attemptAt b).resolved = true := by
  have inside : b < w.attempts.size := by simpa [World.resolve] using hb
  rw [attemptAt_resolve]
  split
  · rfl
  · next unequal =>
    by_contra fresh
    exact unequal ⟨(other b inside (by simpa using fresh)).symm, inside⟩

theorem unresolved_of_settled (h : ∀ a < w.attempts.size, (w.attemptAt a).resolved = true)
    (c : Nat) : w.unresolved c = 0 := by
  refine List.countP_eq_zero.2 fun t ht => ?_
  obtain ⟨a, ha, rfl⟩ := List.getElem_of_mem ht
  have inside : a < w.attempts.size := by simpa using ha
  have resolved := h a inside
  rw [attemptAt, Array.getD_eq_getD_getElem?, Array.getElem?_eq_getElem inside] at resolved
  simpa using fun _ => resolved

end World

namespace Machine

section

variable {past : List Machine} {w : World} {stack : List Frame} {m m' : Machine}

/-- Nothing is attended to, so nothing has to be. -/
theorem Attends.aside (h : m.Attends) (hs : m.Sound past m')
    (free : ∀ a, ¬ Serves a m.control m.stack) (begins : ∀ c, m.act ≠ .begin c)
    (kept : m'.control.Attended m'.world m'.stack ∧ ∀ f ∈ m'.stack, f.Attended) : m'.Attends := by
  refine ⟨fun a ha fresh => ?_, kept.1, kept.2⟩
  by_cases old : a < m.world.attempts.size
  · have resolved : (m.world.attemptAt a).resolved = true := by
      by_contra open'
      exact free a (h.served a old (by simpa using open'))
    rw [hs.grows.resolved a old resolved] at fresh
    cases fresh
  · exact absurd (hs.opened a ha (Nat.not_lt.1 old)).2 (begins _)

/-- An attempt that begins is attended to until it is handed over, or gets its outcome at once. -/
theorem begin_attends {c : Nat} (h : Attends ⟨w, .run (.begin c), stack⟩) :
    (begin w c stack).Attends := by
  have settled (a : Nat) (ha : a < w.attempts.size) : (w.attemptAt a).resolved = true := by
    by_contra fresh
    cases h.served a ha (by simpa using fresh)
  have size : (w.openAttempt c).2.attempts.size = w.attempts.size + 1 := by
    simp [World.openAttempt]
  have opened (a : Nat) : (w.openAttempt c).2.attemptAt a =
      if a = w.attempts.size then ⟨c, w.clock, false⟩ else w.attemptAt a :=
    w.attemptAt_openAttempt c a
  have only (a : Nat) (ha : a < (w.openAttempt c).2.attempts.size)
      (fresh : ((w.openAttempt c).2.attemptAt a).resolved = false) : a = w.attempts.size := by
    by_contra old
    rw [opened, if_neg old, settled a (by omega)] at fresh
    cases fresh
  unfold begin
  dsimp only
  split
  · refine ⟨fun a ha fresh => ?_, trivial, h.frames⟩
    have resolved := World.settled_resolve (w := (w.openAttempt c).2) only ha
    exact absurd (fresh.symm.trans resolved) (by simp)
  · refine ⟨fun a ha fresh => ?_, ?_, ?_⟩
    · obtain rfl := only a ha fresh
      exact .send _ _
    · show ((w.openAttempt c).2.attemptAt w.attempts.size).resolved = false
      rw [opened, if_pos rfl]
    · rintro f (_ | ⟨_, hf⟩)
      · trivial
      · exact h.frames f hf

theorem send_attends {a : Nat} {headers : List Header}
    (h : Attends ⟨w, .run (.send a headers), stack⟩)
    (hm : Fits past ⟨w, .run (.send a headers), stack⟩) (sync : w.transport.deferred = false)
    (script : ∀ t ∈ w.transport.script, t.Decisive) : (send w a headers stack).Attends := by
  obtain ⟨rest, rfl⟩ := hm.control
  have decisive (timeout : Int) := decisive_nextTurn
    (t := (w.transport.noteSent headers timeout).enter) script
  unfold send
  dsimp only
  split
  · next deferred => exact absurd (sync.symm.trans deferred) (by simp)
  · refine ⟨fun b hb fresh => ?_, ?_, ?_⟩
    · have served := h.served b hb fresh
      cases served
      exact .turn (decisive _) rest
    · exact (decisive _).quiet_or_empty.imp_right fun empty => ⟨empty, h.control⟩
    · rintro f (_ | ⟨_, hf⟩)
      · trivial
      · exact h.frames f hf

theorem turn_attends {a : Nat} {t : Turn} (h : Attends ⟨w, .run (.turn a t), stack⟩)
    (hm : Fits past ⟨w, .run (.turn a t), stack⟩) : (takeTurn w a t stack).Attends := by
  have control : t.fault = none ∨ t.deliveries = [] ∧ (w.attemptAt a).resolved = false := h.control
  have inside : a < w.attempts.size := hm.control.1
  unfold takeTurn
  split
  · next empty =>
    split
    · next none =>
      -- a turn that brings nothing is not for an attempt without an outcome
      refine ⟨fun b hb fresh => ?_, trivial, h.frames⟩
      obtain ⟨-, decisive, -⟩ := (h.served b hb fresh).eq_of_turn
      exact absurd none (decisive.1 empty)
    · next f raises =>
      have fresh : (w.attemptAt a).resolved = false := by
        rcases control with none | both
        · rw [none] at raises
          cases raises
        · exact both.2
      obtain ⟨-, -, rest, rfl⟩ := (h.served a inside fresh).eq_of_turn
      refine ⟨fun b hb open' => ?_, .inr ⟨a, fresh, .returns f rest⟩, h.frames⟩
      obtain ⟨rfl, -⟩ := (h.served b hb open').eq_of_turn
      exact .returns f rest
  · next d later some =>
    have quiet : t.fault = none := by
      rcases control with none | both
      · exact none
      · rw [some] at both
        cases both.1
    refine ⟨fun b hb fresh => ?_, trivial, ?_⟩
    · obtain ⟨rfl, -⟩ := (h.served b hb fresh).eq_of_turn
      exact .deliver _ _
    · rintro f (_ | ⟨_, hf⟩)
      · exact quiet
      · exact h.frames f hf

theorem deliver_attends {a : Nat} {o : Outcome Stream}
    (h : Attends ⟨w, .run (.deliver a o), stack⟩) : (deliver w a o stack).Attends := by
  have other (b : Nat) (hb : b < w.attempts.size) (fresh : (w.attemptAt b).resolved = false) :
      b = a := by
    cases h.served b hb fresh
    rfl
  unfold deliver
  dsimp only
  split
  · next resolved =>
    have same : (World.closeStream? (w.logFor (w.callOf a) .error
        (text "Transport resolved the same attempt twice, ignoring")) o.stream?).attempts =
        w.attempts := by
      cases o.stream? <;> rfl
    refine ⟨fun b hb fresh => ?_, trivial, h.frames⟩
    simp only [finished, World.attemptAt, same] at hb fresh
    obtain rfl := other b hb fresh
    exact absurd (fresh.symm.trans resolved) (by simp)
  · have settled (m : Machine) (world : m.world = w.resolve a)
        (control : m.control.Attended m.world m.stack) (frames : ∀ f ∈ m.stack, f.Attended) :
        m.Attends := by
      refine ⟨fun b hb fresh => ?_, control, frames⟩
      rw [world] at hb fresh
      exact absurd (fresh.symm.trans (World.settled_resolve other hb)) (by simp)
    cases o with
    | authFailure message => exact settled _ rfl trivial h.frames
    | failure f => exact settled _ rfl trivial h.frames
    | reply r =>
      dsimp only
      unfold openReply
      split
      · refine settled _ rfl trivial fun f hf => ?_
        rcases List.mem_append.1 hf with held | below
        · cases hs : r.stream with
          | none => simp [hs] at held
          | some s =>
            obtain rfl : f = .holding s := by simpa [hs] using held
            trivial
        · exact h.frames f below
      · split <;> exact settled _ rfl trivial h.frames

theorem schedule_attended {k : CopyTask} (hw : w.Valid) (frames : ∀ f ∈ stack, f.Attended) :
    (schedule w k stack).control.Attended (schedule w k stack).world (schedule w k stack).stack ∧
      ∀ f ∈ (schedule w k stack).stack, f.Attended := by
  have held (f : Frame) (hf : f ∈ Frame.holding k.stream :: stack) : f.Attended := by
    rcases List.mem_cons.1 hf with rfl | hf
    · trivial
    · exact frames f hf
  unfold schedule
  split
  · exact ⟨trivial, held⟩
  · next e he =>
    split
    · exact ⟨trivial, held⟩
    · rw [hw.inOrder e he]
      dsimp only
      split
      · exact ⟨trivial, held⟩
      · exact ⟨trivial, frames⟩

theorem complete_attended {result : Except RequestError Response}
    (frames : ∀ f ∈ stack, f.Attended) :
    (complete w 0 result stack).control.Attended (complete w 0 result stack).world
        (complete w 0 result stack).stack ∧
      ∀ f ∈ (complete w 0 result stack).stack, f.Attended := by
  have told {e : Event} (he : ∀ d, e.answers d = (0 == d)) :
      0 < ((w.setCall 0 { w.callAt 0 with completed := true }).note e).answers 0 := by
    rw [answers_tell w _ he, if_pos rfl]
    exact Nat.succ_pos _
  unfold complete
  dsimp only
  split
  · exact ⟨trivial, frames⟩
  · split
    · exact ⟨told fun d => rfl, frames⟩
    · exact ⟨told fun d => rfl, frames⟩

/-- An instruction leaves every attempt attended to. -/
theorem exec_attends {x : Instr} (h : Attends ⟨w, .run x, stack⟩) (hw : w.Valid)
    (hm : Fits past ⟨w, .run x, stack⟩) (hs : Sound past ⟨w, .run x, stack⟩ (exec w x stack))
    (one : w.calls.size = 1) (calm : (Control.run x).performs = 0)
    (sync : w.transport.deferred = false) (script : ∀ t ∈ w.transport.script, t.Decisive) :
    (exec w x stack).Attends := by
  have pushed (f : Frame) (hf : f.Attended) (g : Frame) (hg : g ∈ f :: stack) : g.Attended := by
    rcases List.mem_cons.1 hg with rfl | hg
    · exact hf
    · exact h.frames g hg
  have aside (free : ∀ a, ¬ Serves a (.run x) stack)
      (begins : ∀ c, act ⟨w, .run x, stack⟩ ≠ .begin c) := Attends.aside h hs free begins
  cases x with
  | perform p => exact absurd calm (by simp only [Control.performs, Performance.performs]; omega)
  | begin c => exact begin_attends h
  | send a headers => exact send_attends h hm sync script
  | turn a t => exact turn_attends h hm
  | deliver a o => exact deliver_attends h
  | schedule k =>
    exact aside (fun a s => by cases s) (fun c => by simp [act]) (schedule_attended hw h.frames)
  | complete c result =>
    obtain rfl := holdsCall_eq one hm.control
    exact aside (fun a s => by cases s) (fun c => by simp [act]) (complete_attended h.frames)
  | dispatch c =>
    refine aside (fun a s => by cases s) (fun c => by simp [act]) ?_
    simp only [exec, dispatch]
    split
    · exact ⟨trivial, pushed _ trivial⟩
    · exact ⟨trivial, h.frames⟩
  | copy k =>
    refine aside (fun a s => by cases s) (fun c => by simp [act]) ?_
    simp only [exec, copy]
    split <;> exact ⟨trivial, h.frames⟩
  | receive a status headers body =>
    refine aside (fun a s => by cases s) (fun c => by simp [act]) ?_
    simp only [exec, receive]
    split <;> exact ⟨trivial, h.frames⟩
  | unscheduled k f | fail c context =>
    exact aside (fun a s => by cases s) (fun c => by simp [act]) ⟨trivial, h.frames⟩
  | settle c time answer =>
    refine aside (fun a s => by cases s) (fun d => by rcases answer with f | e | r <;> simp [act]) ?_
    rcases answer with f | error | reason <;> exact ⟨trivial, h.frames⟩
  | react r =>
    refine aside (fun a s => by cases s) (fun c => by simp [act]) ?_
    cases r with
    | rest => exact ⟨trivial, h.frames⟩
    | raise message => exact ⟨.inl h.control, h.frames⟩
    | perform request onSuccess onError fault =>
      exact absurd calm (by simp only [Control.performs, Reaction.performs]; omega)
  | runQueue n =>
    refine aside (fun a s => by cases s) (fun c => by simp [act]) ?_
    simp only [exec, runQueue]
    split
    · exact ⟨trivial, h.frames⟩
    · exact ⟨trivial, pushed _ trivial⟩
  | serve =>
    refine aside (fun a s => by cases s) (fun c => by simp [act]) ?_
    simp only [exec, serve]
    split
    · exact ⟨trivial, h.frames⟩
    · exact ⟨trivial, pushed _ trivial⟩

theorem resume_attends {a : Answer} {f : Frame} (h : Attends ⟨w, .done a, f :: stack⟩)
    (hm : Fits past ⟨w, .done a, f :: stack⟩)
    (hs : Sound past ⟨w, .done a, f :: stack⟩ (resume w f stack)) :
    (resume w f stack).Attends := by
  have below (g : Frame) (hg : g ∈ stack) : g.Attended := h.frames g (List.mem_cons_of_mem f hg)
  refine Attends.aside h hs (fun a s => by cases s) (fun c => by cases f <;> simp [act]) ?_
  cases f with
  | attempts c =>
    simp only [resume, nextAttempt]
    split
    · exact ⟨trivial, h.frames⟩
    · exact ⟨trivial, below⟩
  | turn a t =>
    have quiet : t.fault = none := h.frames (.turn a t) List.mem_cons_self
    exact ⟨.inl quiet, below⟩
  | submitting k fails => exact hm.stack.1.elim
  | reacting fault =>
    obtain rfl : fault = none := h.frames (.reacting fault) List.mem_cons_self
    exact ⟨trivial, below⟩
  | sending _ | nested | holding _ | answering _ | queue _ | worker => exact ⟨trivial, below⟩

theorem unwind_attends {fault : Fault} {f : Frame} (h : Attends ⟨w, .raised fault, f :: stack⟩)
    (hm : Fits past ⟨w, .raised fault, f :: stack⟩)
    (hs : Sound past ⟨w, .raised fault, f :: stack⟩ (unwind w fault f stack)) :
    (unwind w fault f stack).Attends := by
  have below (g : Frame) (hg : g ∈ stack) : g.Attended := h.frames g (List.mem_cons_of_mem f hg)
  have control : 0 < w.answers 0 ∨
      ∃ a, (w.attemptAt a).resolved = false ∧ Serves a (.raised fault) (f :: stack) := h.control
  -- a fault that passes a frame other than these is that of an answered call
  have passes (other : ∀ a, ¬ Serves a (.raised fault) (f :: stack)) : 0 < w.answers 0 := by
    rcases control with answered | ⟨a, -, served⟩
    · exact answered
    · exact absurd served (other a)
  have begins (c : Nat) : act ⟨w, .raised fault, f :: stack⟩ ≠ .begin c := by cases f <;> simp [act]
  cases f with
  | sending a =>
    have reached {b : Nat} (s : Serves b (.raised fault) (.sending a :: stack)) : b = a := by
      cases s
      rfl
    unfold unwind
    dsimp only
    split
    · next resolved =>
      refine ⟨fun b hb fresh => ?_, .inl ?_, below⟩
      · obtain rfl := reached (h.served b hb fresh)
        exact absurd (fresh.symm.trans resolved) (by simp)
      · rcases control with answered | ⟨b, fresh, served⟩
        · exact answered
        · obtain rfl := reached served
          exact absurd (fresh.symm.trans resolved) (by simp)
    · refine ⟨fun b hb fresh => ?_, trivial, below⟩
      have settled := World.settled_resolve (fun b hb fresh => reached (h.served b hb fresh)) hb
      exact absurd (fresh.symm.trans settled) (by simp)
  | nested =>
    refine ⟨fun b hb fresh => ?_, ?_, below⟩
    · cases h.served b hb fresh
      exact .reaches fault _
    · refine control.imp_right ?_
      rintro ⟨a, fresh, served⟩
      cases served
      exact ⟨a, fresh, .reaches fault _⟩
  | submitting k fails => exact hm.stack.1.elim
  | worker => exact Attends.aside h hs (fun a s => by cases s) begins ⟨trivial, below⟩
  | holding s =>
    refine Attends.aside h hs (fun a s => by cases s) begins ⟨.inl ?_, below⟩
    show 0 < (w.closeStream s).answers 0
    rw [World.answers_closeStream]
    exact passes fun a s => by cases s
  | attempts _ | turn _ _ | reacting _ | answering _ | queue _ =>
    exact Attends.aside h hs (fun a s => by cases s) begins
      ⟨.inl (passes fun a s => by cases s), below⟩

/-- A fault that passes an attempt leaves no call unanswered. -/
theorem Attends.calm (h : m.Attends) : ¬ m.LeavesUnanswered 0 := by
  rintro ⟨a, late, -, unanswered⟩
  obtain ⟨f, rest, raised, stack, resolved⟩ := throwsLate_iff.1 late
  have control := h.control
  rw [raised, stack] at control
  rcases control with answered | ⟨b, fresh, served⟩
  · omega
  · cases served
    rw [resolved] at fresh
    cases fresh

/-- A machine at rest leaves no attempt without an outcome. -/
theorem Attends.settled (h : m.Attends) (idle : m.isIdle = true) :
    ∀ a < m.world.attempts.size, (m.world.attemptAt a).resolved = true := by
  intro a ha
  by_contra fresh
  have served := h.served a ha (by simpa using fresh)
  obtain ⟨w, control, stack⟩ := m
  cases served <;> cases idle

theorem idle_counts (idle : m.isIdle = true) (c : Nat) : m.loops c = 0 ∧ m.inHand c = 0 := by
  obtain ⟨w, control, stack⟩ := m
  cases stack with
  | nil =>
    cases control with
    | run x => cases idle
    | done a => exact ⟨rfl, rfl⟩
    | raised f => exact ⟨rfl, rfl⟩
  | cons f stack => cases control <;> cases idle

end

end Machine

theorem Machine.queued_of_takeTask {w : World} (h : takeTask w = none) : w.queued = [] := by
  unfold takeTask at h
  cases executor : w.executor with
  | none => simp [World.queued, executor]
  | some e =>
    simp only [executor] at h
    split at h
    · next none => rw [World.queued_of_executor executor, none]
    · cases h

/-- A fault that reaches those who run the tasks comes from a continuation that was told a result. -/
theorem Machine.Attends.drains_top {m : Machine} (h : m.Attends) {f : Frame} {stack : List Frame}
    (hs : m.stack = f :: stack) (hf : f.takesTasks = true) (hc : ∀ x, m.control ≠ .run x) :
    m.step.Drains := by
  obtain ⟨w, control, _⟩ := m
  obtain rfl := hs
  cases control with
  | run x => exact absurd rfl (hc x)
  | done a =>
    cases f with
    | queue n => exact .takes (.runQueue (n + 1)) rfl rfl
    | worker => exact .takes .serve rfl rfl
    | _ => cases hf
  | raised fault =>
    cases f with
    | queue n =>
      rcases h.control with answered | ⟨a, -, served⟩
      · exact .answered answered
      · cases served
    | worker => exact .takes .serve rfl rfl
    | _ => cases hf

theorem Machine.Drains.queued {m : Machine} (h : m.Drains) (idle : m.isIdle = true) :
    m.world.queued = [] ∨ 0 < m.world.answers 0 := by
  obtain ⟨w, control, stack⟩ := m
  cases h with
  | takes x h hx =>
    obtain rfl : control = .run x := h
    cases idle
  | under f h hf =>
    cases stack with
    | nil => cases h
    | cons g stack => cases control <;> cases idle
  | drained h => exact .inl h
  | answered h => exact .inr h

/-! ## Runs -/

namespace Network

variable {i : Nat} {r : Request} {rest : List Thread} {past : List Machine} {m : Machine}

namespace Alone

variable (alone : Alone i r rest past m)
include alone

theorem sound : m.Sound past m.step :=
  Machine.step_sound alone.sane.valid alone.fits alone.ready

/-- A step of a lone thread leaves every attempt attended to. -/
theorem attends (h : m.Attends) (script : ∀ t ∈ m.world.transport.script, t.Decisive) :
    m.step.Attends := by
  have sound := alone.sound
  obtain ⟨w, control, stack⟩ := m
  cases control with
  | run x =>
    exact Machine.exec_attends h alone.sane.valid alone.fits sound alone.solo.size alone.performs
      alone.solo.synchronous script
  | done a =>
    cases stack with
    | nil => exact h
    | cons f stack => exact Machine.resume_attends h alone.fits sound
  | raised fault =>
    cases stack with
    | nil => exact h
    | cons f stack => exact Machine.unwind_attends h alone.fits sound

theorem faithful (h : Faithful past m) : Faithful (m :: past) m.step := by
  refine ⟨alone.attends h.attends h.script, fun t ht => ?_, fun x hx => ?_⟩
  · exact h.script t ((Machine.Moves.step m).leaves.script.subset ht)
  · rcases List.mem_cons.1 hx with rfl | hx
    · exact h.attends.calm
    · exact h.calm x hx

/-- Whoever runs the tasks goes on until there are none, or a continuation raises a fault. -/
theorem drains (h : m.Drains) (hf : Faithful past m) (busy : m.isIdle = false) :
    m.step.Drains := by
  cases h with
  | takes x hc hx =>
    have fits := alone.fits.control
    rw [hc] at fits
    obtain ⟨w, control, stack⟩ := m
    obtain rfl : control = .run x := hc
    cases x with
    | runQueue n =>
      obtain rfl : stack = [] := fits
      show (Machine.runQueue w n []).Drains
      unfold Machine.runQueue
      split
      · next none => exact .drained (Machine.queued_of_takeTask none) rfl
      · exact .under (.queue n) List.mem_cons_self rfl
    | serve =>
      obtain rfl : stack = [] := fits
      show (Machine.serve w []).Drains
      unfold Machine.serve
      split
      · next none => exact .drained (Machine.queued_of_takeTask none) rfl
      · exact .under .worker List.mem_cons_self rfl
    | _ => cases hx
  | under f member hf' =>
    rcases Machine.step_continues alone.solo alone.fits alone.performs busy with
      ⟨x, -, on⟩ | ⟨g, below, stack, control, on⟩
    · exact .under f (on.stack.subset member) hf'
    · rw [stack] at member
      rcases List.mem_cons.1 member with rfl | member
      · exact hf.attends.drains_top stack hf' control
      · exact .under f (on.stack.subset member) hf'
  | drained _ idle => exact absurd (busy.symm.trans idle) (by simp)
  | answered h => exact .answered (Nat.lt_of_lt_of_le h (alone.sound.grows.answers 0))

end Alone

/-- Once the thread rests, another one may run the tasks. -/
theorem Faithful.next (h : Faithful past m) (idle : m.isIdle = true) {x : Instr}
    (hx : x.takesTasks = true) : Faithful past (Machine.doing m.world x []) := by
  refine ⟨⟨fun a ha fresh => ?_, ?_, by simp [Machine.doing]⟩, h.script, h.calm⟩
  · exact absurd (fresh.symm.trans (h.attends.settled idle a ha)) (by simp)
  · cases x <;> trivial

/-- The call was answered once its thread rests and the tasks were run. -/
theorem Faithful.answered (h : Faithful past m) (alone : Alone i r rest past m)
    (idle : m.isIdle = true) (drained : m.world.queued = [] ∨ 0 < m.world.answers 0) :
    m.world.answers 0 = 1 := by
  have inside : 0 < m.world.calls.size := by
    rw [alone.solo.size]
    exact Nat.one_pos
  have reachable := alone.recorded.reachable
  rcases drained with none | answered
  · have rests : Network.Rests ⟨m.world, m.thread :: rest, past⟩ 0 := by
      intro t ht
      rcases List.mem_cons.1 ht with rfl | ht
      · exact Machine.idle_counts idle 0
      · exact Machine.idle_counts (alone.idle t ht) 0
    refine reachable.answered_at_rest inside h.calm rests
      (World.unresolved_of_settled (h.attends.settled idle) 0) ?_
    show m.world.queuedFor 0 = 0
    rw [World.queuedFor, none]
    rfl
  · have : m.world.answers 0 ≤ 1 := reachable.answers_le_one 0
    omega

end Network

end RequestFlow
