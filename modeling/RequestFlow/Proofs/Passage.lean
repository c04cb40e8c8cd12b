import RequestFlow.Proofs.Latest

/-!
# Where a fault passes

On its way down a stack a fault is stopped by an attempt at the transport that has no outcome yet, and
by an executor that runs a task where it was submitted.  All other frames let it by, apart from the
worker, which has no frame below it.  From the moment an attempt is resolved until the thread is done
with the outcome, its stack has no frame that would stop a fault, and the same is true of what is
below a loop of attempts at any time.

    a step over an open stack leaves it open, unless it begins an attempt         (Sound.stays_open)
    whoever has an outcome in hand, or is told a result, has an open stack below  (Moves.calm)
    a fault passes an open stack frame by frame                                   (unwind_open)
-/

namespace RequestFlow

/-- A fault passes the frame. -/
def Frame.LetsBy (w : World) : Frame → Prop
  | .sending a => (w.attemptAt a).resolved = true
  | .submitting .. => False
  | _ => True

namespace World

/-- A fault passes all frames of the stack, which is called open then. -/
def LetsBy (w : World) (stack : List Frame) : Prop := ∀ f ∈ stack, f.LetsBy w

/-- The same, once the attempt has an outcome. -/
def LetsByBut (w : World) (a : Nat) (stack : List Frame) : Prop :=
  ∀ f ∈ stack, f.LetsBy w ∨ f = .sending a

/-- A fault passes all frames that are below a loop of attempts. -/
def LetsByBelow (w : World) : List Frame → Prop
  | [] => True
  | .attempts _ :: stack => w.LetsBy stack
  | _ :: stack => w.LetsByBelow stack

end World

/-- An outcome is handled over an open stack, whose attempt is resolved when it is delivered. -/
def Control.Calm (w : World) (stack : List Frame) : Control → Prop
  | .run (.send ..) | .run (.turn ..) | .done _ | .raised _ => True
  | .run (.deliver a _) => w.LetsByBut a stack
  | .run _ => w.LetsBy stack

structure Machine.Calm (m : Machine) : Prop where
  loops : m.world.LetsByBelow m.stack
  control : m.control.Calm m.world m.stack

/-! ## Stacks -/

section

variable {w w' : World} {stack : List Frame}

theorem World.LetsBy.below (h : w.LetsBy stack) : w.LetsByBelow stack := by
  induction stack with
  | nil => trivial
  | cons f stack ih =>
    have rest : w.LetsBy stack := fun g hg => h g (List.mem_cons_of_mem _ hg)
    cases f with
    | attempts c => exact rest
    | sending _ | nested | turn _ _ | holding _ | submitting _ _ | reacting _ | answering _ | queue _
    | worker => exact ih rest

theorem World.LetsByBelow.tail {f : Frame} (h : w.LetsByBelow (f :: stack)) : w.LetsByBelow stack := by
  cases f with
  | attempts c => exact World.LetsBy.below h
  | sending _ | nested | turn _ _ | holding _ | submitting _ _ | reacting _ | answering _ | queue _
  | worker => exact h

/-- What is over an open stack is as it should be, whatever it does. -/
theorem World.LetsBy.calm {control : Control} (h : w.LetsBy stack) :
    Machine.Calm ⟨w, control, stack⟩ := by
  refine ⟨h.below, ?_⟩
  cases control with
  | run i =>
    cases i with
    | send _ _ | turn _ _ => trivial
    | deliver a o => exact fun f hf => .inl (h f hf)
    | perform _ | dispatch _ | begin _ | schedule _ | unscheduled _ _ | copy _ | receive _ _ _ _
    | fail _ _ | settle _ _ _ | complete _ _ | react _ | runQueue _ | serve => exact h
  | done _ | raised _ => trivial

/-- A turn is taken inside its own attempt, whose loop has an open stack below. -/
theorem letsByBut_hostsTurn {a : Nat} (h : w.HostsTurn a stack) (fits : StackFits w stack)
    (below : w.LetsByBelow stack) : w.LetsByBut a stack := by
  obtain ⟨-, ⟨rest, rfl⟩ | ⟨answer, rfl⟩⟩ := h
  · obtain ⟨-, rest', rfl⟩ := fits.2.1
    intro f hf
    simp only [List.mem_cons] at hf
    rcases hf with rfl | rfl | rfl | hf
    · exact .inl trivial
    · exact .inr rfl
    · exact .inl trivial
    · exact .inl (below f hf)
  · intro f hf
    obtain rfl := List.mem_singleton.1 hf
    exact .inl trivial

section

variable (hg : w.Grows w') (fits : StackFits w stack)
include hg fits

theorem Frame.LetsBy.mono {f : Frame} (h : f.LetsBy w) (hf : f ∈ stack) : f.LetsBy w' := by
  cases f with
  | sending a => exact hg.resolved a (mem_sending_lt fits hf) h
  | submitting _ _ => exact h
  | attempts _ | nested | turn _ _ | holding _ | reacting _ | answering _ | queue _ | worker => trivial

theorem World.LetsBy.mono (h : w.LetsBy stack) : w'.LetsBy stack :=
  fun f hf => (h f hf).mono hg fits hf

theorem World.LetsByBelow.mono (h : w.LetsByBelow stack) : w'.LetsByBelow stack := by
  induction stack with
  | nil => trivial
  | cons f stack ih =>
    cases f with
    | attempts c => exact World.LetsBy.mono hg fits.2 h
    | sending _ | nested | turn _ _ | holding _ | submitting _ _ | reacting _ | answering _ | queue _
    | worker => exact ih fits.2 h

/-- Calm is not disturbed by others. -/
theorem Machine.Calm.mono {control : Control} (h : Machine.Calm ⟨w, control, stack⟩) :
    Machine.Calm ⟨w', control, stack⟩ := by
  refine ⟨World.LetsByBelow.mono hg fits h.loops, ?_⟩
  have before := h.control
  cases control with
  | run i =>
    cases i with
    | send _ _ | turn _ _ => trivial
    | deliver a o => exact fun f hf => (before f hf).imp_left fun lets => lets.mono hg fits hf
    | perform _ | dispatch _ | begin _ | schedule _ | unscheduled _ _ | copy _ | receive _ _ _ _
    | fail _ _ | settle _ _ _ | complete _ _ | react _ | runQueue _ | serve =>
      exact World.LetsBy.mono hg fits before
  | done _ | raised _ => trivial

end

end

/-! ## Steps -/

theorem not_submitting {w : World} {stack : List Frame} (h : StackFits w stack) {k : CopyTask}
    {fails : Bool} : .submitting k fails ∉ stack := by
  induction stack with
  | nil => exact List.not_mem_nil
  | cons f stack ih =>
    intro hf
    rcases List.mem_cons.1 hf with rfl | hf
    · exact h.1
    · exact ih h.2 hf

namespace Machine

variable {past : List Machine} {m m' : Machine} {w : World} {stack : List Frame}

/-- A step puts no frame on the stack that stops a fault, unless it begins an attempt. -/
theorem Sound.letsBy (hs : m.Sound past m') (hb : ∀ c, m.act ≠ .begin c) {f : Frame}
    (hf : f ∈ m'.stack) : f.LetsBy m'.world ∨ ∃ a, f = .sending a ∧ .sending a ∈ m.stack := by
  cases f with
  | sending a =>
    rcases hs.sending a hf with old | rfl
    · exact .inr ⟨a, rfl, old⟩
    · have begins := hs.opened _ (mem_sending_lt hs.fits.stack hf) (Nat.le_refl _)
      exact absurd begins.2 (hb _)
  | submitting k fails => exact absurd hf (not_submitting hs.fits.stack)
  | attempts _ | nested | turn _ _ | holding _ | reacting _ | answering _ | queue _ | worker =>
    exact .inl trivial

/-- A step over an open stack leaves it open, unless it begins an attempt. -/
theorem Sound.stays_open (hs : m.Sound past m') (hb : ∀ c, m.act ≠ .begin c)
    (fits : StackFits m.world m.stack) (h : m.world.LetsBy m.stack) : m'.world.LetsBy m'.stack := by
  intro f hf
  rcases hs.letsBy hb hf with lets | ⟨a, rfl, old⟩
  · exact lets
  · exact (h _ old).mono hs.grows fits old

theorem begin_calm {c : Nat} (fits : StackFits w stack)
    (hs : Sound past ⟨w, .run (.begin c), stack⟩ (begin w c stack)) (h : w.LetsBy stack) :
    (begin w c stack).Calm := by
  have grows := hs.grows
  unfold begin at grows ⊢
  dsimp only at grows ⊢
  split
  · next invalid =>
    rw [invalid] at grows
    exact (h.mono grows fits).calm
  · next headers valid =>
    rw [valid] at grows
    exact ⟨(h.mono grows fits).below, trivial⟩

theorem send_calm {a : Nat} {headers : List Header} (fits : StackFits w stack)
    (hs : Sound past ⟨w, .run (.send a headers), stack⟩ (send w a headers stack))
    (h : w.LetsByBelow stack) : (send w a headers stack).Calm := by
  have grows := hs.grows
  unfold send at grows ⊢
  dsimp only at grows ⊢
  split
  · next deferred =>
    rw [if_pos deferred] at grows
    exact ⟨h.mono grows fits, trivial⟩
  · next direct =>
    rw [if_neg direct] at grows
    have below := h.mono grows fits
    exact ⟨below, trivial⟩

theorem turn_calm {a : Nat} {t : Turn} (fits : StackFits w stack) (hosts : w.HostsTurn a stack)
    (hs : Sound past ⟨w, .run (.turn a t), stack⟩ (takeTurn w a t stack))
    (h : w.LetsByBelow stack) : (takeTurn w a t stack).Calm := by
  have grows := hs.grows
  unfold takeTurn at grows ⊢
  split at grows
  · dsimp only at grows ⊢
    split <;> split at grows <;> exact ⟨h.mono grows fits, trivial⟩
  · have below := h.mono grows fits
    refine ⟨below, ?_⟩
    intro f hf
    rcases List.mem_cons.1 hf with rfl | hf
    · exact .inl trivial
    · exact letsByBut_hostsTurn (hosts.mono grows) (fits.mono grows) below f hf

/-- The attempt that an outcome is delivered for is resolved then, if it was not before. -/
theorem resolved_deliver {a : Nat} (ha : a < w.attempts.size) (o : Outcome Stream) :
    ((deliver w a o stack).world.attemptAt a).resolved = true := by
  by_cases resolved : (w.attemptAt a).resolved = true
  · have same : (deliver w a o stack).world.attempts = w.attempts := by
      unfold deliver
      rw [if_pos resolved]
      cases o.stream? <;> rfl
    rwa [World.attemptAt, same, ← World.attemptAt]
  · have same : (deliver w a o stack).world.attempts = (w.resolve a).attempts := by
      unfold deliver
      rw [if_neg resolved]
      cases o with
      | authFailure message => rfl
      | failure f => rfl
      | reply r =>
        simp only [openReply]
        repeat' split
        all_goals rfl
    have now := w.attemptAt_resolve a a
    rw [if_pos ⟨rfl, ha⟩] at now
    rw [World.attemptAt, same, ← World.attemptAt, now]

theorem deliver_calm {a : Nat} {o : Outcome Stream} (ha : a < w.attempts.size)
    (fits : StackFits w stack)
    (hs : Sound past ⟨w, .run (.deliver a o), stack⟩ (deliver w a o stack))
    (h : w.LetsByBut a stack) : (deliver w a o stack).Calm := by
  have now : (deliver w a o stack).world.LetsBy (deliver w a o stack).stack := by
    intro f hf
    rcases hs.letsBy (fun c => by simp [act]) hf with lets | ⟨b, rfl, old⟩
    · exact lets
    · rcases h _ old with lets | same
      · exact lets.mono hs.grows fits old
      · cases same
        exact resolved_deliver ha o
  exact now.calm

theorem exec_calm {i : Instr} (hm : Fits past ⟨w, .run i, stack⟩)
    (hs : Sound past ⟨w, .run i, stack⟩ (exec w i stack)) (h : Calm ⟨w, .run i, stack⟩) :
    (exec w i stack).Calm := by
  have aside (begins : ∀ c, i ≠ .begin c) (hi : w.LetsBy stack) : (exec w i stack).Calm := by
    refine (hs.stays_open (fun c act => begins c ?_) hm.stack hi).calm
    exact Control.run.inj (control_of_begin act)
  cases i with
  | begin c => exact begin_calm hm.stack hs h.control
  | send a headers => exact send_calm hm.stack hs h.loops
  | turn a t => exact turn_calm hm.stack hm.control hs h.loops
  | deliver a o => exact deliver_calm hm.control.1 hm.stack hs h.control
  | perform _ | dispatch _ | schedule _ | unscheduled _ _ | copy _ | receive _ _ _ _ | fail _ _
  | settle _ _ _ | complete _ _ | react _ | runQueue _ | serve =>
    exact aside (fun c => by simp) h.control

theorem resume_calm {a : Answer} {f : Frame} (hm : Fits past ⟨w, .done a, f :: stack⟩)
    (hs : Sound past ⟨w, .done a, f :: stack⟩ (resume w f stack))
    (h : Calm ⟨w, .done a, f :: stack⟩) : (resume w f stack).Calm := by
  have below := h.loops.tail
  have fits := hm.stack
  cases f with
  | attempts c =>
    have whole : w.LetsBy (.attempts c :: stack) := by
      intro f hf
      rcases List.mem_cons.1 hf with rfl | hf
      · trivial
      · exact h.loops f hf
    exact (hs.stays_open (fun d => by simp [act]) fits whole).calm
  | submitting k fails => exact fits.1.elim
  | queue n =>
    obtain rfl : stack = [] := fits.1
    exact ⟨trivial, fun f hf => absurd hf List.not_mem_nil⟩
  | worker =>
    obtain rfl : stack = [] := fits.1
    exact ⟨trivial, fun f hf => absurd hf List.not_mem_nil⟩
  | reacting fault => cases fault <;> exact ⟨below, trivial⟩
  | holding _ | nested => exact ⟨below.mono hs.grows fits.2, trivial⟩
  | sending _ | turn _ _ | answering _ => exact ⟨below, trivial⟩

theorem unwind_calm {fault : Fault} {f : Frame} (hm : Fits past ⟨w, .raised fault, f :: stack⟩)
    (hs : Sound past ⟨w, .raised fault, f :: stack⟩ (unwind w fault f stack))
    (h : Calm ⟨w, .raised fault, f :: stack⟩) : (unwind w fault f stack).Calm := by
  have below := h.loops.tail
  have fits := hm.stack
  have grows := hs.grows
  cases f with
  | sending a =>
    obtain ⟨-, rest, same⟩ := fits.1
    obtain rfl : stack = .attempts (w.callOf a) :: rest := same
    have whole : w.LetsBy (.attempts (w.callOf a) :: rest) := by
      intro f hf
      rcases List.mem_cons.1 hf with rfl | hf
      · trivial
      · exact h.loops f hf
    unfold unwind at grows ⊢
    dsimp only at grows ⊢
    split
    · exact whole.calm
    · next fresh =>
      rw [if_neg fresh] at grows
      exact (whole.mono grows fits.2).calm
  | submitting k fails => exact fits.1.elim
  | worker =>
    obtain rfl : stack = [] := fits.1
    exact ⟨trivial, fun f hf => absurd hf List.not_mem_nil⟩
  | holding s => exact ⟨below.mono grows fits.2, trivial⟩
  | attempts _ | nested | turn _ _ | reacting _ | answering _ | queue _ => exact ⟨below, trivial⟩

/-- Whoever has an outcome in hand, or is told a result, has an open stack below. -/
theorem Moves.calm (hm : m.Moves m') (fits : m.Fits past) (hs : m.Sound past m') (h : m.Calm) :
    m'.Calm := by
  cases hm with
  | judge w c context answer stack => exact World.LetsBy.calm h.control
  | step =>
    obtain ⟨w, control, stack⟩ := m
    cases control with
    | run i => exact exec_calm fits hs h
    | done a =>
      cases stack with
      | nil => exact h
      | cons f stack => exact resume_calm fits hs h
    | raised fault =>
      cases stack with
      | nil => exact h
      | cons f stack => exact unwind_calm fits hs h

/-- A fault passes an open stack frame by frame, and reaches the worker as it is. -/
theorem unwind_open {fault : Fault} {f : Frame} (h : w.LetsBy (f :: stack)) (hf : f ≠ .worker) :
    (unwind w fault f stack).thread = ⟨.raised fault, stack⟩ := by
  have lets := h f List.mem_cons_self
  cases f with
  | sending a =>
    have resolved : (w.attemptAt a).resolved = true := lets
    simp only [unwind, resolved, if_true]
    rfl
  | submitting k fails => exact lets.elim
  | worker => exact absurd rfl hf
  | attempts _ | nested | turn _ _ | holding _ | reacting _ | answering _ | queue _ => rfl

end Machine

end RequestFlow
