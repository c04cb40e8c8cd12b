import RequestFlow.Proofs.Stacks

/-!
# Requests inside a callback

One thread works a network.  The attempts that are at the transport, one inside the other, are those
whose frames are on its stack.  A callback may end in a retry of its own call, but this is left to the
loop that the attempt came from; so only a request that a continuation performs can enter the
transport while another attempt is there.

    above an attempt at the transport only its own call goes on               (StackFlat)
    a step that performs nothing inside a callback nests nothing              (Flat.move)
    a run without such steps has at most one attempt at the transport         (Lone.nesting_le_one)
-/

namespace RequestFlow

/-! ## Definitions -/

/-- Whether the frame is an attempt at the transport. -/
def Frame.isSending : Frame → Bool
  | .sending _ => true
  | _ => false

/-- The call whose attempt is at the transport, the innermost one. -/
def inside? (w : World) : List Frame → Option Nat
  | [] => none
  | .sending a :: _ => some (w.callOf a)
  | _ :: stack => inside? w stack

namespace World

/-- The call may go on over the stack, inside an attempt of its own at most. -/
def GoesOn (w : World) (c : Nat) (stack : List Frame) : Prop :=
  c < w.calls.size ∧ ∀ d, inside? w stack = some d → c = d

/-- The same for the call of the attempt. -/
def AttemptGoesOn (w : World) (a : Nat) (stack : List Frame) : Prop :=
  a < w.attempts.size ∧ w.GoesOn (w.callOf a) stack

/-- Attempts belong to calls, and tasks belong to attempts. -/
structure Tidy (w : World) : Prop where
  attempts : ∀ a < w.attempts.size, w.callOf a < w.calls.size
  tasks : ∀ k ∈ w.queued, k.attempt < w.attempts.size

/-- Calls and attempts are only ever added. -/
structure Extends (w w' : World) : Prop where
  calls : w.calls.size ≤ w'.calls.size
  attempts : w.attempts.size ≤ w'.attempts.size
  callOf : ∀ a < w.attempts.size, w'.callOf a = w.callOf a

/-- No call, attempt or task is added, and the counts of pending attempts stay. -/
structure Unmoved (w w' : World) : Prop where
  calls : w'.calls.size = w.calls.size
  pending : ∀ c, w'.pendingOf c = w.pendingOf c
  attempts : w'.attempts.size = w.attempts.size
  callOf : ∀ a, w'.callOf a = w.callOf a
  queued : w'.queued ⊆ w.queued

/-- Nothing was performed yet, over a transport that calls back at once. -/
structure Untried (w : World) : Prop where
  calls : w.calls = #[]
  attempts : w.attempts = #[]
  queued : w.queued = []
  prompt : w.transport.deferred = false
  depth : w.transport.depth = 0
  maxDepth : w.transport.maxDepth = 0

/-- What may be done to the world between two steps: calls and attempts stay, tasks are not added,
and the transport goes on to call back at once, with its counts. -/
structure Beside (w w' : World) : Prop where
  calls : w'.calls = w.calls
  attempts : w'.attempts = w.attempts
  queued : w'.queued ⊆ w.queued
  prompt : w'.transport.deferred = w.transport.deferred
  depth : w'.transport.depth = w.transport.depth
  maxDepth : w'.transport.maxDepth = w.transport.maxDepth

end World

/-- What a frame says about the stack below it. -/
def Frame.Flat (w : World) (stack : List Frame) : Frame → Prop
  | .attempts c => c < w.calls.size ∧ inside? w stack = none
  | .sending a => a < w.attempts.size ∧ .attempts (w.callOf a) ∈ stack ∧ inside? w stack = none
  | .turn a _ => w.AttemptGoesOn a stack
  | .submitting k _ => w.AttemptGoesOn k.attempt stack
  | .queue _ | .worker => inside? w stack = none
  | .nested | .holding _ | .reacting _ | .answering _ => True

/-- Above an attempt at the transport only its own call goes on. -/
def StackFlat (w : World) : List Frame → Prop
  | [] => True
  | f :: stack => f.Flat w stack ∧ StackFlat w stack

/-- What an instruction says about the stack below it. -/
def Instr.Flat (w : World) (stack : List Frame) : Instr → Prop
  | .perform _ | .react _ => True
  | .begin c => c < w.calls.size ∧ .attempts c ∈ stack ∧ inside? w stack = none
  | .dispatch c | .fail c _ | .settle c _ _ | .complete c _ => w.GoesOn c stack
  | .send a _ | .turn a _ | .deliver a _ | .receive a _ _ _ => w.AttemptGoesOn a stack
  | .schedule k | .unscheduled k _ | .copy k => w.AttemptGoesOn k.attempt stack
  | .runQueue _ | .serve => inside? w stack = none

def Control.Flat (w : World) (stack : List Frame) : Control → Prop
  | .run i => i.Flat w stack
  | .done _ | .raised _ => True

namespace Machine

/-- Attempts at the transport, one inside the other. -/
def nesting (m : Machine) : Nat := m.stack.countP Frame.isSending

/-- The next step performs a request inside the callback of an attempt. -/
def performsInside (m : Machine) : Bool :=
  match m.control with
  | .run (.perform _) => decide (0 < m.nesting)
  | _ => false

/-- At most one attempt is at the transport, and its call has something pending. -/
structure Flat (m : Machine) : Prop where
  tidy : m.world.Tidy
  stack : StackFlat m.world m.stack
  control : m.control.Flat m.world m.stack
  single : ∀ c, m.loops c ≤ 1
  pending : ∀ c, m.loops c ≤ m.world.pendingOf c

end Machine

/-- The runs of one thread over a transport that calls back at once, with the machines that took the
steps, the latest first.  The thread begins with something else whenever it is idle. -/
inductive Lone : List Machine → Machine → Prop
  | start (w : World) (h : w.Untried) : Lone [] (Machine.finished w [])
  | move {past : List Machine} {m m' : Machine} (h : Lone past m) (hm : m.Moves m') :
    Lone (m :: past) m'
  | meanwhile {past : List Machine} {m : Machine} (h : Lone past m) (w : World)
    (hw : m.world.Beside w) : Lone past (m.thread.on w)
  | next {past : List Machine} {m : Machine} (h : Lone past m) (idle : m.isIdle = true) (t : Thread)
    (ht : Arrival m.world t) : Lone past (t.on m.world)

/-! ## Lemmas -/

namespace World

variable {w w' : World}

theorem Unmoved.of_eq (calls : w'.calls = w.calls) (attempts : w'.attempts = w.attempts)
    (queued : w'.queued ⊆ w.queued) : w.Unmoved w' := by
  refine ⟨by rw [calls], fun c => ?_, by rw [attempts], fun a => ?_, queued⟩
  · simp only [pendingOf, callAt, calls]
  · simp only [World.callOf, attemptAt, attempts]

theorem Unmoved.of_same (calls : w'.calls = w.calls) (attempts : w'.attempts = w.attempts)
    (executor : w'.executor = w.executor) : w.Unmoved w' := by
  refine .of_eq calls attempts ?_
  rw [World.queued, executor]
  exact List.Subset.refl _

theorem Unmoved.refl (w : World) : w.Unmoved w := .of_same rfl rfl rfl

theorem Unmoved.extends (h : w.Unmoved w') : w.Extends w' :=
  ⟨Nat.le_of_eq h.calls.symm, Nat.le_of_eq h.attempts.symm, fun a _ => h.callOf a⟩

theorem Unmoved.keepsTidy (h : w.Unmoved w') (ht : w.Tidy) : w'.Tidy := by
  refine ⟨fun a ha => ?_, fun k hk => ?_⟩
  · rw [h.callOf, h.calls]
    exact ht.attempts a (h.attempts ▸ ha)
  · rw [h.attempts]
    exact ht.tasks k (h.queued hk)

theorem Unmoved.resolve (w : World) (a : Nat) : w.Unmoved (w.resolve a) :=
  ⟨rfl, fun _ => rfl, by simp [World.resolve], w.callOf_resolve a, List.Subset.refl _⟩

theorem Unmoved.trans {w'' : World} (h : w.Unmoved w') (h' : w'.Unmoved w'') : w.Unmoved w'' :=
  ⟨h'.calls.trans h.calls, fun c => (h'.pending c).trans (h.pending c),
    h'.attempts.trans h.attempts, fun a => (h'.callOf a).trans (h.callOf a),
    fun _ hk => h.queued (h'.queued hk)⟩

theorem Beside.unmoved (h : w.Beside w') : w.Unmoved w' := .of_eq h.calls h.attempts h.queued

theorem pendingOf_openCall (w : World) (p : Performance) (c : Nat) :
    (w.openCall p).2.pendingOf c = w.pendingOf c := by
  rw [pendingOf, callAt_openCall, pendingOf]
  split
  · next new =>
    rw [w.callAt_of_le (Nat.le_of_eq new.symm)]
    rfl
  · rfl

theorem pendingOf_setCall (w : World) {c : Nat} (call : Call) (hc : c < w.calls.size) (d : Nat) :
    (w.setCall c call).pendingOf d = if c = d then call.pending else w.pendingOf d := by
  rw [pendingOf, callAt_setCall w call hc]
  split <;> rfl

/-- Marking a call as complete leaves its count of pending attempts. -/
theorem Unmoved.complete (w : World) (c : Nat) :
    w.Unmoved (w.setCall c { w.callAt c with completed := true }) := by
  refine ⟨w.size_setCall c _, fun d => ?_, rfl, fun _ => rfl, List.Subset.refl _⟩
  by_cases hc : c < w.calls.size
  · rw [pendingOf_setCall w _ hc]
    split
    · next same => rw [← same]; rfl
    · rfl
  · rw [setCall, Array.setIfInBounds_eq_of_size_le (Nat.not_lt.1 hc)]

end World

section

variable {w w' : World} (h : w.Extends w')
include h

theorem inside?_extends {stack : List Frame} (hs : StackFlat w stack) :
    inside? w' stack = inside? w stack := by
  induction stack with
  | nil => rfl
  | cons f stack ih =>
    cases f with
    | sending a => exact congrArg some (h.callOf a hs.1.1)
    | attempts _ | nested | turn _ _ | holding _ | submitting _ _ | reacting _ | answering _
    | queue _ | worker => exact ih hs.2

variable {stack : List Frame} (hs : StackFlat w stack)
include hs

theorem World.GoesOn.mono {c : Nat} (hc : w.GoesOn c stack) : w'.GoesOn c stack := by
  refine ⟨Nat.lt_of_lt_of_le hc.1 h.calls, ?_⟩
  rw [inside?_extends h hs]
  exact hc.2

theorem World.AttemptGoesOn.mono {a : Nat} (ha : w.AttemptGoesOn a stack) :
    w'.AttemptGoesOn a stack := by
  refine ⟨Nat.lt_of_lt_of_le ha.1 h.attempts, ?_⟩
  rw [h.callOf a ha.1]
  exact ha.2.mono h hs

theorem Frame.Flat.mono {f : Frame} (hf : f.Flat w stack) : f.Flat w' stack := by
  have same := inside?_extends h hs
  cases f with
  | attempts c => exact ⟨Nat.lt_of_lt_of_le hf.1 h.calls, same.trans hf.2⟩
  | sending a =>
    obtain ⟨ha, loop, outside⟩ := hf
    refine ⟨Nat.lt_of_lt_of_le ha h.attempts, ?_, same.trans outside⟩
    rw [h.callOf a ha]
    exact loop
  | turn _ _ | submitting _ _ => exact World.AttemptGoesOn.mono h hs hf
  | queue _ | worker => exact same.trans hf
  | nested | holding _ | reacting _ | answering _ => trivial

theorem Control.Flat.mono {control : Control} (hc : control.Flat w stack) :
    control.Flat w' stack := by
  have same := inside?_extends h hs
  cases control with
  | done _ | raised _ => trivial
  | run i =>
    cases i with
    | perform _ | react _ => trivial
    | begin c => exact ⟨Nat.lt_of_lt_of_le hc.1 h.calls, hc.2.1, same.trans hc.2.2⟩
    | dispatch _ | fail _ _ | settle _ _ _ | complete _ _ => exact World.GoesOn.mono h hs hc
    | send _ _ | turn _ _ | deliver _ _ | receive _ _ _ _ | schedule _ | unscheduled _ _ | copy _ =>
      exact World.AttemptGoesOn.mono h hs hc
    | runQueue _ | serve => exact same.trans hc

end

theorem StackFlat.mono {w w' : World} (h : w.Extends w') {stack : List Frame}
    (hs : StackFlat w stack) : StackFlat w' stack := by
  induction stack with
  | nil => trivial
  | cons f stack ih => exact ⟨hs.1.mono h hs.2, ih hs.2⟩

section

variable {w : World} {stack : List Frame}

theorem loops_attempts (c d : Nat) (stack : List Frame) :
    (Frame.attempts c :: stack).countP (Frame.isLoopOf d) =
      stack.countP (Frame.isLoopOf d) + if c = d then 1 else 0 := by
  rw [List.countP_cons]
  simp [Frame.isLoopOf]

/-- The attempt at the transport came from a loop of its call. -/
theorem StackFlat.loop (h : StackFlat w stack) {c : Nat} (hc : inside? w stack = some c) :
    0 < stack.countP (Frame.isLoopOf c) := by
  have mem (f : Frame) (stack : List Frame) (below : 0 < stack.countP (Frame.isLoopOf c)) :
      0 < (f :: stack).countP (Frame.isLoopOf c) := by
    rw [List.countP_cons]
    omega
  induction stack with
  | nil => cases hc
  | cons f stack ih =>
    refine mem f stack ?_
    cases f with
    | sending a =>
      obtain rfl : w.callOf a = c := Option.some.inj hc
      exact List.countP_pos_iff.2 ⟨_, h.1.2.1, by simp [Frame.isLoopOf]⟩
    | attempts _ | nested | turn _ _ | holding _ | submitting _ _ | reacting _ | answering _
    | queue _ | worker => exact ih h.2 hc

theorem StackFlat.nesting (h : StackFlat w stack) :
    stack.countP Frame.isSending = if inside? w stack = none then 0 else 1 := by
  induction stack with
  | nil => rfl
  | cons f stack ih =>
    rw [List.countP_cons, ih h.2]
    cases f with
    | sending a => simp [h.1.2.2, inside?, Frame.isSending]
    | attempts _ | nested | turn _ _ | holding _ | submitting _ _ | reacting _ | answering _
    | queue _ | worker => rfl

end

theorem World.GoesOn.of_outside {w : World} {c : Nat} {stack : List Frame} (hc : c < w.calls.size)
    (h : inside? w stack = none) : w.GoesOn c stack :=
  ⟨hc, fun d hd => by rw [h] at hd; cases hd⟩

namespace Machine

/-! ## Steps -/

section

variable {w w' : World} {control : Control} {stack : List Frame} {f : Frame}

/-- A step that leaves the stack as it is. -/
theorem Flat.onward {x : Control} (h : Flat ⟨w, control, stack⟩) (hw : w.Unmoved w')
    (hc : x.Flat w stack) : Flat ⟨w', x, stack⟩ := by
  refine ⟨hw.keepsTidy h.tidy, h.stack.mono hw.extends, hc.mono hw.extends h.stack, h.single, ?_⟩
  intro c
  show _ ≤ w'.pendingOf c
  rw [hw.pending]
  exact h.pending c

/-- A step that leaves a frame behind. -/
theorem Flat.push {x : Control} (h : Flat ⟨w, control, stack⟩) (hw : w.Unmoved w')
    (hf : f.Flat w stack) (loop : ∀ c, f ≠ .attempts c) (hc : x.Flat w (f :: stack)) :
    Flat ⟨w', x, f :: stack⟩ := by
  have none (c : Nat) : f.isLoopOf c = false := by
    cases f <;> first | rfl | exact absurd rfl (loop _)
  have same (c : Nat) : (f :: stack).countP (Frame.isLoopOf c) = stack.countP (Frame.isLoopOf c) := by
    rw [List.countP_cons, none]
    rfl
  have flat : StackFlat w (f :: stack) := ⟨hf, h.stack⟩
  refine ⟨hw.keepsTidy h.tidy, flat.mono hw.extends, hc.mono hw.extends flat, ?_, ?_⟩
  · intro c
    exact Nat.le_trans (Nat.le_of_eq (same c)) (h.single c)
  · intro c
    show (f :: stack).countP (Frame.isLoopOf c) ≤ w'.pendingOf c
    rw [same, hw.pending]
    exact h.pending c

/-- A step that takes the top frame off. -/
theorem Flat.pop {x : Control} (h : Flat ⟨w, control, f :: stack⟩) (hw : w.Unmoved w')
    (hc : x.Flat w stack) : Flat ⟨w', x, stack⟩ := by
  have fewer (c : Nat) : stack.countP (Frame.isLoopOf c) ≤ (f :: stack).countP (Frame.isLoopOf c) :=
    List.Sublist.countP_le (List.sublist_cons_self f stack)
  refine ⟨hw.keepsTidy h.tidy, h.stack.2.mono hw.extends, hc.mono hw.extends h.stack.2, ?_, ?_⟩
  · intro c
    exact Nat.le_trans (fewer c) (h.single c)
  · intro c
    show _ ≤ w'.pendingOf c
    rw [hw.pending]
    exact Nat.le_trans (fewer c) (h.pending c)

end

section

variable {w : World} {stack : List Frame}

theorem perform_flat {p : Performance} (h : Flat ⟨w, .run (.perform p), stack⟩)
    (outside : inside? w stack = none) : Flat (perform w p stack) := by
  unfold perform
  split
  · exact h.onward (.refl w) trivial
  · split
    · exact h.onward (.refl w) trivial
    · split
      · exact h.onward (.refl w) trivial
      · have grows : w.Extends (w.openCall p).2 :=
          ⟨by simp [World.openCall], Nat.le_refl _, fun _ _ => rfl⟩
        refine ⟨⟨fun a ha => ?_, h.tidy.tasks⟩, h.stack.mono grows, ?_, h.single, fun c => ?_⟩
        · exact Nat.lt_of_lt_of_le (h.tidy.attempts a ha) grows.calls
        · refine .of_outside (by simp [doing, World.openCall]) ?_
          exact (inside?_extends grows h.stack).trans outside
        · show _ ≤ (w.openCall p).2.pendingOf c
          rw [w.pendingOf_openCall]
          exact h.pending c

theorem dispatch_flat {c : Nat} (h : Flat ⟨w, .run (.dispatch c), stack⟩) :
    Flat (dispatch w c stack) := by
  obtain ⟨hc, own⟩ : w.GoesOn c stack := h.control
  have size := w.size_setCall c ((w.callAt c).register).2
  have grows : w.Extends (w.setCall c ((w.callAt c).register).2) :=
    ⟨Nat.le_of_eq size.symm, Nat.le_refl _, fun _ _ => rfl⟩
  have tidy : (w.setCall c ((w.callAt c).register).2).Tidy :=
    ⟨fun a ha => Nat.lt_of_lt_of_le (h.tidy.attempts a ha) grows.calls, h.tidy.tasks⟩
  have pending (d : Nat) : (w.setCall c ((w.callAt c).register).2).pendingOf d =
      w.pendingOf d + if c = d then 1 else 0 := by
    rw [w.pendingOf_setCall _ hc]
    split
    · next same => rw [← same]; rfl
    · rfl
  unfold dispatch
  dsimp only
  split
  · next first =>
    -- the call has no loop, so it is not the one at the transport, and no other is
    have idle : w.pendingOf c = 0 := by simpa [Call.register, World.pendingOf] using first
    have free := h.pending c
    have outside : inside? w stack = none := by
      rw [Option.eq_none_iff_forall_ne_some]
      intro d hd
      obtain rfl := own d hd
      have busy : 0 < loops ⟨w, .run (.dispatch c), stack⟩ c := h.stack.loop hd
      have idle : loops ⟨w, .run (.dispatch c), stack⟩ c ≤ w.pendingOf c := free
      omega
    have outside' := (inside?_extends grows h.stack).trans outside
    refine ⟨tidy, ⟨⟨Nat.lt_of_lt_of_le hc grows.calls, outside'⟩, h.stack.mono grows⟩,
      ⟨Nat.lt_of_lt_of_le hc grows.calls, List.mem_cons_self, outside'⟩, fun d => ?_, fun d => ?_⟩
    · have single : stack.countP (Frame.isLoopOf d) ≤ 1 := h.single d
      have below : stack.countP (Frame.isLoopOf d) ≤ w.pendingOf d := h.pending d
      show (Frame.attempts c :: stack).countP (Frame.isLoopOf d) ≤ 1
      rw [loops_attempts]
      split
      · next same =>
        rw [← same] at below ⊢
        omega
      · exact single
    · have below : stack.countP (Frame.isLoopOf d) ≤ w.pendingOf d := h.pending d
      show (Frame.attempts c :: stack).countP (Frame.isLoopOf d) ≤
        (w.setCall c ((w.callAt c).register).2).pendingOf d
      rw [loops_attempts, pending]
      omega
  · refine ⟨tidy, h.stack.mono grows, trivial, h.single, fun d => ?_⟩
    show _ ≤ (w.setCall c ((w.callAt c).register).2).pendingOf d
    rw [pending]
    exact Nat.le_trans (h.pending d) (Nat.le_add_right _ _)

theorem begin_flat {c : Nat} (h : Flat ⟨w, .run (.begin c), stack⟩) : Flat (begin w c stack) := by
  obtain ⟨hc, loop, outside⟩ : 
      c < w.calls.size ∧ Frame.attempts c ∈ stack ∧ inside? w stack = none := h.control
  have grows : w.Extends (w.openAttempt c).2 :=
    ⟨Nat.le_refl _, by simp [World.openAttempt], fun _ ha => w.callOf_openAttempt c ha⟩
  have own : (w.openAttempt c).2.callOf w.attempts.size = c := by
    rw [World.callOf, w.attemptAt_openAttempt, if_pos rfl]
  have new : w.attempts.size < (w.openAttempt c).2.attempts.size := by simp [World.openAttempt]
  have tidy : (w.openAttempt c).2.Tidy := by
    refine ⟨fun a ha => ?_, fun k hk => Nat.lt_of_lt_of_le (h.tidy.tasks k hk) grows.attempts⟩
    by_cases old : a < w.attempts.size
    · rw [w.callOf_openAttempt c old]
      exact h.tidy.attempts a old
    · have : a = w.attempts.size := by
        have := (w.openAttempt c).2.attempts.size
        simp only [World.openAttempt, Array.size_push] at ha
        omega
      rw [this, own]
      exact hc
  have outside' := (inside?_extends grows h.stack).trans outside
  have opened : Flat ⟨(w.openAttempt c).2, .done .nothing, stack⟩ :=
    ⟨tidy, h.stack.mono grows, trivial, h.single, h.pending⟩
  unfold begin
  dsimp only
  split
  · exact opened.onward (.resolve _ _) (World.GoesOn.of_outside hc outside')
  · have sending : Frame.Flat (w.openAttempt c).2 stack (.sending w.attempts.size) := by
      refine ⟨new, ?_, outside'⟩
      rw [own]
      exact loop
    have goes : (w.openAttempt c).2.AttemptGoesOn w.attempts.size
        (.sending w.attempts.size :: stack) :=
      ⟨new, tidy.attempts _ new, fun d hd => Option.some.inj hd⟩
    exact opened.push (.refl _) sending (by simp) goes

theorem send_flat {a : Nat} {headers : List Header} (h : Flat ⟨w, .run (.send a headers), stack⟩) :
    Flat (send w a headers stack) := by
  unfold send
  dsimp only
  split
  · exact h.onward (.of_same rfl rfl rfl) trivial
  · exact h.push (.of_same rfl rfl rfl) trivial (by simp) h.control

theorem openReply_flat {a : Nat} {r : Reply Stream} {control : Control}
    (h : Flat ⟨w, control, stack⟩) (ha : w.AttemptGoesOn a stack) : Flat (openReply w a r stack) := by
  unfold openReply
  split
  · cases r.stream with
    | none => exact h.onward (.refl w) ha.2
    | some s => exact h.push (.refl w) trivial (by simp) ha.2
  · split
    · exact h.onward (.refl w) ha
    · exact h.onward (.refl w) ha
    · exact h.onward (.refl w) ha

theorem deliver_flat {a : Nat} {o : Outcome Stream} (h : Flat ⟨w, .run (.deliver a o), stack⟩) :
    Flat (deliver w a o stack) := by
  have ha : w.AttemptGoesOn a stack := h.control
  have resolved := World.Unmoved.resolve w a
  unfold deliver
  dsimp only
  split
  · refine h.onward ?_ trivial
    cases o.stream? <;> exact .of_same rfl rfl rfl
  · cases o with
    | authFailure message => exact h.onward resolved ha.2
    | failure f => exact h.onward resolved ha.2
    | reply r =>
      have next : Flat ⟨w.resolve a, .done .nothing, stack⟩ := h.onward resolved trivial
      exact openReply_flat next (ha.mono resolved.extends h.stack)

theorem schedule_flat {k : CopyTask} (h : Flat ⟨w, .run (.schedule k), stack⟩) :
    Flat (schedule w k stack) := by
  have hk : w.AttemptGoesOn k.attempt stack := h.control
  have told : w.Unmoved (w.note .submit) := .of_same rfl rfl rfl
  -- an executor that keeps the task
  have kept {e : Executor} (he : w.executor = some e) {x : Control} (hc : x.Flat w stack) :
      Flat ⟨(w.note .submit).setExecutor (e.enqueue k), x, stack⟩ := by
    have same : w.Extends ((w.note .submit).setExecutor (e.enqueue k)) :=
      ⟨Nat.le_refl _, Nat.le_refl _, fun _ _ => rfl⟩
    refine ⟨⟨h.tidy.attempts, fun j hj => ?_⟩, h.stack.mono same, hc.mono same h.stack, h.single,
      h.pending⟩
    rcases List.mem_append.1 (show j ∈ e.queue ++ [k] from hj) with hj | hj
    · exact h.tidy.tasks j (by rw [World.queued_of_executor he]; exact hj)
    · rw [List.mem_singleton.1 hj]
      exact hk.1
  unfold schedule
  split
  · exact h.push (.refl w) trivial (by simp) hk
  · next e he =>
    dsimp only
    split
    · exact h.push (.refl w) trivial (by simp) hk
    · split
      · exact h.push told hk (by simp) hk
      · exact h.push told hk (by simp) hk
      · split
        · exact h.push told trivial (by simp) hk
        · exact kept he trivial
      · split
        · exact h.push told trivial (by simp) hk
        · exact kept he (x := .run (.unscheduled k submitBroke)) hk

theorem taken_flat {i : Instr} {w' : World} {k : CopyTask} (h : Flat ⟨w, .run i, stack⟩)
    (taken : takeTask w = some (k, w')) {f : Frame} (outside : inside? w stack = none)
    (hf : f = .worker ∨ ∃ n, f = .queue n) : Flat (doing w' (.copy k) (f :: stack)) := by
  obtain ⟨queued, calls, attempts, -, -⟩ := World.takeTask_eq_some taken
  have inside : k.attempt < w.attempts.size := h.tidy.tasks k (by rw [queued]; exact List.mem_cons_self)
  have less : w.Unmoved w' :=
    .of_eq calls attempts (by rw [queued]; exact List.subset_cons_self k w'.queued)
  have goes := World.GoesOn.of_outside (h.tidy.attempts _ inside) outside
  rcases hf with rfl | ⟨n, rfl⟩
  · exact h.push less outside (by simp) ⟨inside, goes⟩
  · exact h.push less outside (by simp) ⟨inside, goes⟩

theorem exec_flat {i : Instr} (h : Flat ⟨w, .run i, stack⟩)
    (hp : ∀ p, i = .perform p → inside? w stack = none) : Flat (exec w i stack) := by
  cases i with
  | perform p => exact perform_flat h (hp p rfl)
  | dispatch c => exact dispatch_flat h
  | begin c => exact begin_flat h
  | send a headers => exact send_flat h
  | turn a t =>
    have ha : w.AttemptGoesOn a stack := h.control
    simp only [exec, takeTurn]
    split
    · split <;> exact h.onward (.of_same rfl rfl rfl) trivial
    · exact h.push (.of_same rfl rfl rfl) ha (by simp) ha
  | deliver a o => exact deliver_flat h
  | schedule k => exact schedule_flat h
  | unscheduled k f =>
    have hk : w.AttemptGoesOn k.attempt stack := h.control
    exact h.onward (.of_same rfl rfl rfl) hk.2
  | copy k =>
    have hk : w.AttemptGoesOn k.attempt stack := h.control
    simp only [exec, copy]
    split
    · exact h.onward (.of_same rfl rfl rfl) hk.2
    · exact h.onward (.of_same rfl rfl rfl) hk
  | receive a status headers body =>
    have ha : w.AttemptGoesOn a stack := h.control
    simp only [exec, receive]
    split <;> exact h.onward (.of_same rfl rfl rfl) ha.2
  | fail c x => exact h.onward (.of_same rfl rfl rfl) h.control
  | settle c time answer =>
    have hc : w.GoesOn c stack := h.control
    simp only [exec, settle]
    split <;> exact h.onward (.of_same rfl rfl rfl) hc
  | complete c result =>
    have marked := World.Unmoved.complete w c
    simp only [exec, complete]
    split
    · exact h.onward (.of_same rfl rfl rfl) trivial
    · split <;> exact h.onward (marked.trans (.of_same rfl rfl rfl)) trivial
  | react r =>
    cases r with
    | rest => exact h.onward (.refl w) trivial
    | raise message => exact h.onward (.refl w) trivial
    | perform request onSuccess onError fault => exact h.push (.refl w) trivial (by simp) trivial
  | runQueue n =>
    have outside : inside? w stack = none := h.control
    simp only [exec, runQueue]
    split
    · exact h.onward (.refl w) trivial
    · next taken => exact taken_flat h taken outside (.inr ⟨n, rfl⟩)
  | serve =>
    have outside : inside? w stack = none := h.control
    simp only [exec, serve]
    split
    · exact h.onward (.refl w) trivial
    · next taken => exact taken_flat h taken outside (.inl rfl)

/-- An attempt has returned to the loop of its call, which goes on or ends. -/
theorem nextAttempt_flat {a : Answer} {c : Nat} (h : Flat ⟨w, .done a, .attempts c :: stack⟩) :
    Flat (nextAttempt w c stack) := by
  obtain ⟨⟨hc, outside⟩, flat⟩ := h.stack
  have size := w.size_setCall c ((w.callAt c).retire).2
  have grows : w.Extends (w.setCall c ((w.callAt c).retire).2) :=
    ⟨Nat.le_of_eq size.symm, Nat.le_refl _, fun _ _ => rfl⟩
  have tidy : (w.setCall c ((w.callAt c).retire).2).Tidy :=
    ⟨fun a ha => Nat.lt_of_lt_of_le (h.tidy.attempts a ha) grows.calls, h.tidy.tasks⟩
  have pending (d : Nat) : (w.setCall c ((w.callAt c).retire).2).pendingOf d =
      if c = d then w.pendingOf c - 1 else w.pendingOf d := w.pendingOf_setCall _ hc d
  have single (d : Nat) : stack.countP (Frame.isLoopOf d) + (if c = d then 1 else 0) ≤ 1 := by
    rw [← loops_attempts]
    exact h.single d
  have below (d : Nat) : stack.countP (Frame.isLoopOf d) + (if c = d then 1 else 0) ≤ w.pendingOf d := by
    rw [← loops_attempts]
    exact h.pending d
  have outside' := (inside?_extends grows flat).trans outside
  unfold nextAttempt
  dsimp only
  split
  · next more =>
    have more : w.pendingOf c ≠ 1 := by simpa [Call.retire, World.pendingOf] using more
    refine ⟨tidy, ⟨⟨Nat.lt_of_lt_of_le hc grows.calls, outside'⟩, flat.mono grows⟩,
      ⟨Nat.lt_of_lt_of_le hc grows.calls, List.mem_cons_self, outside'⟩, h.single, fun d => ?_⟩
    show (Frame.attempts c :: stack).countP (Frame.isLoopOf d) ≤
      (w.setCall c ((w.callAt c).retire).2).pendingOf d
    rw [loops_attempts, pending]
    have single := single d
    have below := below d
    split
    · next same =>
      subst same
      rw [if_pos rfl] at single below
      omega
    · next other =>
      rw [if_neg other] at below
      exact below
  · refine ⟨tidy, flat.mono grows, trivial, fun d => ?_, fun d => ?_⟩
    · exact Nat.le_trans (Nat.le_add_right _ _) (single d)
    · show stack.countP (Frame.isLoopOf d) ≤ (w.setCall c ((w.callAt c).retire).2).pendingOf d
      rw [pending]
      have single := single d
      have below := below d
      split
      · next same =>
        subst same
        rw [if_pos rfl] at single
        omega
      · next other =>
        rw [if_neg other] at below
        exact below

theorem resume_flat {a : Answer} {f : Frame} (h : Flat ⟨w, .done a, f :: stack⟩) :
    Flat (resume w f stack) := by
  have fits := h.stack.1
  cases f with
  | attempts c => exact nextAttempt_flat h
  | turn b t => exact h.pop (.refl w) fits
  | submitting k fails =>
    cases fails with
    | false => exact h.pop (.refl w) trivial
    | true => exact h.pop (x := .run (.unscheduled k submitBroke)) (.refl w) fits
  | reacting fault => cases fault <;> exact h.pop (.refl w) trivial
  | queue n => exact h.pop (x := .run (.runQueue (n + 1))) (.refl w) fits
  | worker => exact h.pop (x := .run .serve) (.refl w) fits
  | sending _ | nested | holding _ | answering _ =>
    exact h.pop (.of_same rfl rfl rfl) trivial

theorem unwind_flat {fault : Fault} {f : Frame} (h : Flat ⟨w, .raised fault, f :: stack⟩) :
    Flat (unwind w fault f stack) := by
  have fits := h.stack.1
  cases f with
  | sending a =>
    obtain ⟨ha, -, outside⟩ := fits
    simp only [unwind]
    split
    · exact h.pop (.refl w) trivial
    · rw [w.callOf_resolve]
      exact h.pop (.resolve w a) (World.GoesOn.of_outside (h.tidy.attempts a ha) outside)
  | submitting k fails => exact h.pop (x := .run (.unscheduled k fault)) (.refl w) fits
  | worker =>
    exact h.pop (x := .run .serve) (.of_same rfl rfl rfl) fits
  | holding s => exact h.pop (.of_same rfl rfl rfl) trivial
  | attempts _ | nested | turn _ _ | reacting _ | answering _ | queue _ =>
    exact h.pop (.refl w) trivial

end

variable {m m' : Machine}

theorem Flat.nesting (h : m.Flat) :
    m.nesting = if inside? m.world m.stack = none then 0 else 1 := h.stack.nesting

/-- A step that performs nothing inside a callback nests nothing. -/
theorem Flat.move (h : m.Flat) (hm : m.Moves m') (hp : m.performsInside = false) : m'.Flat := by
  cases hm with
  | judge w c context answer stack =>
    exact h.onward (x := .run (.settle c context.networkTime answer)) (.refl w) h.control
  | step =>
    obtain ⟨w, control, stack⟩ := m
    cases control with
    | run i =>
      refine exec_flat h fun p same => ?_
      subst same
      cases inside : inside? w stack with
      | none => rfl
      | some c =>
        have nested := h.nesting
        simp only [inside, reduceCtorEq, if_false] at nested
        simp [performsInside, nested] at hp
    | done a =>
      cases stack with
      | nil => exact h
      | cons f stack => exact resume_flat h
    | raised fault =>
      cases stack with
      | nil => exact h
      | cons f stack => exact unwind_flat h

end Machine

/-! ## Runs -/

theorem Lone.flat {past : List Machine} {m : Machine} (h : Lone past m)
    (hp : ∀ n ∈ past, n.performsInside = false) : m.Flat ∧ ∀ n ∈ past, n.Flat := by
  induction h with
  | start w h =>
    refine ⟨⟨⟨?_, ?_⟩, trivial, trivial, fun _ => Nat.zero_le _, fun _ => Nat.zero_le _⟩, by simp⟩
    · simp [Machine.finished, h.attempts]
    · simp [Machine.finished, h.queued]
  | @move past m m' h hm ih =>
    obtain ⟨now, before⟩ := ih fun n hn => hp n (List.mem_cons_of_mem _ hn)
    exact ⟨now.move hm (hp m List.mem_cons_self), List.forall_mem_cons.2 ⟨now, before⟩⟩
  | meanwhile h w hw ih =>
    obtain ⟨now, before⟩ := ih hp
    have still := now.control
    exact ⟨now.onward hw.unmoved still, before⟩
  | @next past m h idle t ht ih =>
    obtain ⟨now, before⟩ := ih hp
    refine ⟨⟨now.tidy, ?_, ?_, ?_, ?_⟩, before⟩
    · cases ht <;> simp [Thread.on, StackFlat, Frame.Flat]
    · cases ht with
      | turn a x answer ha => exact ⟨ha, .of_outside (now.tidy.attempts a ha) rfl⟩
      | perform p => trivial
      | runQueue | serve => rfl
    · intro c
      cases ht <;> simp [Thread.on, Machine.loops, Frame.isLoopOf]
    · intro c
      cases ht <;> simp [Thread.on, Machine.loops, Frame.isLoopOf]

/-- While nothing is performed inside a callback, at most one attempt is at the transport. -/
theorem Lone.nesting_le_one {past : List Machine} {m : Machine} (h : Lone past m)
    (hp : ∀ n ∈ past, n.performsInside = false) : ∀ n ∈ past, n.nesting ≤ 1 := by
  intro n hn
  rw [((h.flat hp).2 n hn).nesting]
  split <;> omega

end RequestFlow
