import RequestFlow.Proofs.Census

/-!
# What can wait below an instruction

A frame and an instruction say something about the stack below them: a loop stands over answered
calls, an attempt at the transport stands on the loop of its own call, a transport's turn stands
either on such an attempt or on a caller of its own.  `ownLoop` is the loop that a fault reaches
without passing an attempt first, which is where a registered attempt can be left behind; apart from
a loop whose own outcome is in hand, it always belongs to an answered call.

    what fits a world fits it also after others have worked on it        (Machine.Fits.mono)
    each attempt at the transport has a loop of its own                  (sends_le_loops)
-/

namespace RequestFlow

/-- The loop that a fault reaches before any attempt at the transport. -/
def ownLoop : List Frame → Option Nat
  | [] => none
  | .attempts c :: _ => some c
  | .sending _ :: _ => none
  | _ :: stack => ownLoop stack

namespace World

/-- A fault would reach no loop but that of an answered call. -/
def Clear (w : World) (stack : List Frame) : Prop := ∀ c, ownLoop stack = some c → 0 < w.answers c

/-- The same apart from the given call. -/
def ClearBut (w : World) (c : Nat) (stack : List Frame) : Prop :=
  ∀ d, ownLoop stack = some d → d = c ∨ 0 < w.answers d

/-- A turn is taken inside the attempt that it is for, or by a thread of its own. -/
def HostsTurn (w : World) (a : Nat) (stack : List Frame) : Prop :=
  a < w.attempts.size ∧
    ((∃ rest, stack = .nested :: .sending a :: rest) ∨ ∃ answer, stack = [.answering answer])

/-- An outcome of the attempt may be in hand over the stack. -/
def HoldsAttempt (w : World) (a : Nat) (stack : List Frame) : Prop :=
  a < w.attempts.size ∧ w.ClearBut (w.callOf a) stack

/-- An outcome of the call may be in hand over the stack. -/
def HoldsCall (w : World) (c : Nat) (stack : List Frame) : Prop :=
  c < w.calls.size ∧ w.ClearBut c stack

end World

/-- What a frame says about the stack below it. -/
def Frame.Fits (w : World) (stack : List Frame) : Frame → Prop
  | .attempts c => c < w.calls.size ∧ w.Clear stack
  | .sending a => a < w.attempts.size ∧ ∃ rest, stack = .attempts (w.callOf a) :: rest
  | .nested => ∃ a rest, stack = .sending a :: rest
  | .turn a _ => w.HostsTurn a stack
  | .submitting .. => False
  | .reacting _ => w.Clear stack
  | .queue _ | .worker => stack = []
  | .holding _ | .answering _ => True

def StackFits (w : World) : List Frame → Prop
  | [] => True
  | f :: stack => f.Fits w stack ∧ StackFits w stack

/-- What an instruction says about the stack below it. -/
def Instr.Fits (w : World) (stack : List Frame) : Instr → Prop
  | .perform _ | .react _ => w.Clear stack
  | .begin c => ∃ rest, stack = .attempts c :: rest
  | .send a _ => ∃ rest, stack = .sending a :: rest
  | .turn a _ => w.HostsTurn a stack
  | .deliver a _ => a < w.attempts.size ∧ ownLoop stack = none
  | .schedule k | .unscheduled k _ | .copy k => w.HoldsAttempt k.attempt stack
  | .receive a _ _ _ => w.HoldsAttempt a stack
  | .dispatch c | .fail c _ | .settle c _ _ | .complete c _ => w.HoldsCall c stack
  | .runQueue _ | .serve => stack = []

namespace Machine

/-- The attempt that the next step lets a fault pass because it was resolved before. -/
def passed? (m : Machine) : Option Nat :=
  match m.control, m.stack with
  | .raised _, .sending a :: _ => if (m.world.attemptAt a).resolved then some a else none
  | _, _ => none

/-- The transport raised a fault after the attempt was resolved, or let one through. -/
def ThrowsLate (m : Machine) (a : Nat) : Prop := m.passed? = some a

instance (m : Machine) (a : Nat) : Decidable (m.ThrowsLate a) :=
  inferInstanceAs (Decidable (_ = _))

/-- Such a fault, of the call and before its continuation was told anything. -/
def LeavesUnanswered (m : Machine) (c : Nat) : Prop :=
  ∃ a, m.ThrowsLate a ∧ m.world.callOf a = c ∧ m.world.answers c = 0

/-- A fault is on its way. -/
def isRaised (m : Machine) : Bool :=
  match m.control with
  | .raised _ => true
  | _ => false

end Machine

/-- What a fault on its way says about the loop that it will reach. -/
def Control.Fits (past : List Machine) (w : World) (stack : List Frame) : Control → Prop
  | .run i => i.Fits w stack
  | .done _ => True
  | .raised _ =>
    ∀ c, ownLoop stack = some c → 0 < w.answers c ∨ ∃ m ∈ past, m.LeavesUnanswered c

/-- The stack of the machine is in shape. -/
structure Machine.Fits (past : List Machine) (m : Machine) : Prop where
  stack : StackFits m.world m.stack
  control : m.control.Fits past m.world m.stack

/-- Attempts belong to calls, tasks belong to attempts, and the executor keeps to its rules. -/
structure World.Valid (w : World) : Prop where
  attempts : ∀ a < w.attempts.size, w.callOf a < w.calls.size
  tasks : ∀ k ∈ w.queued, k.attempt < w.attempts.size
  inOrder : w.InOrder

/-- What is lasting: calls, attempts, marks of resolved attempts and answers are only ever added. -/
structure World.Grows (w w' : World) : Prop where
  calls : w.calls.size ≤ w'.calls.size
  attempts : w.attempts.size ≤ w'.attempts.size
  callOf : ∀ a < w.attempts.size, w'.callOf a = w.callOf a
  resolved : ∀ a < w.attempts.size, (w.attemptAt a).resolved = true →
    (w'.attemptAt a).resolved = true
  answers : ∀ c, w.answers c ≤ w'.answers c

/-! ## Lemmas -/

theorem Machine.throwsLate_iff {m : Machine} {a : Nat} :
    m.ThrowsLate a ↔ ∃ f rest, m.control = .raised f ∧ m.stack = .sending a :: rest ∧
      (m.world.attemptAt a).resolved = true := by
  unfold ThrowsLate passed?
  split
  · next f b rest hc hs =>
    simp only [Option.ite_none_right_eq_some, Option.some.injEq, hc, hs, Control.raised.injEq,
      List.cons.injEq, Frame.sending.injEq]
    constructor
    · rintro ⟨hr, rfl⟩
      exact ⟨f, rest, rfl, ⟨rfl, rfl⟩, hr⟩
    · rintro ⟨_, _, -, ⟨rfl, -⟩, hr⟩
      exact ⟨hr, rfl⟩
  · next none =>
    refine ⟨by simp, ?_⟩
    rintro ⟨f, rest, hc, hs, -⟩
    exact (none f a rest hc hs).elim

theorem Machine.not_leavesUnanswered {m : Machine} {c : Nat} (h : m.isRaised = false) :
    ¬ m.LeavesUnanswered c := by
  rintro ⟨a, late, -⟩
  obtain ⟨f, rest, hc, -⟩ := throwsLate_iff.1 late
  rw [isRaised, hc] at h
  cases h

theorem World.Grows.trans {w w' w'' : World} (h : w.Grows w') (h' : w'.Grows w'') : w.Grows w'' := by
  have attempts (a : Nat) (ha : a < w.attempts.size) : a < w'.attempts.size :=
    Nat.lt_of_lt_of_le ha h.attempts
  refine ⟨Nat.le_trans h.calls h'.calls, Nat.le_trans h.attempts h'.attempts, ?_, ?_,
    fun c => Nat.le_trans (h.answers c) (h'.answers c)⟩
  · intro a ha
    rw [h'.callOf a (attempts a ha), h.callOf a ha]
  · intro a ha hr
    exact h'.resolved a (attempts a ha) (h.resolved a ha hr)

theorem World.Keeps.grows {w w' : World} (h : w.Keeps w') : w.Grows w' :=
  ⟨Nat.le_of_eq (by rw [h.calls]), Nat.le_of_eq (by rw [h.attempts]), fun a _ => h.callOf a,
    fun a _ hr => by rw [h.attemptAt]; exact hr, fun c => Nat.le_of_eq (h.answers c).symm⟩

theorem World.Keeps.valid {w w' : World} (h : w.Keeps w') (hv : w.Valid) : w'.Valid := by
  refine ⟨?_, ?_, ?_⟩
  · rw [h.attempts, h.calls]
    intro a ha
    rw [h.callOf]
    exact hv.attempts a ha
  · rw [h.queued, h.attempts]
    exact hv.tasks
  · intro e he
    rw [h.executor] at he
    exact hv.inOrder e he

namespace Meanwhile

variable {w w' : World} (h : Meanwhile w w')
include h

theorem attemptAt (a : Nat) : w'.attemptAt a = w.attemptAt a := by
  simp only [World.attemptAt, h.attempts]

theorem callOf (a : Nat) : w'.callOf a = w.callOf a := congrArg Attempt.call (h.attemptAt a)

theorem unresolved (c : Nat) : w'.unresolved c = w.unresolved c := by
  simp only [World.unresolved, h.attempts]

theorem queuedFor (c : Nat) : w'.queuedFor c = w.queuedFor c := by
  simp only [World.queuedFor, h.callOf]
  exact h.queued.countP_eq _

theorem told (c : Nat) : w'.told c = w.told c := by
  obtain ⟨records, trace⟩ := h.trace
  rw [← w.told_addLogs records c]
  simp only [World.told, World.addLogs, trace]

theorem answers (c : Nat) : w'.answers c = w.answers c := by
  rw [World.answers_eq_length, World.answers_eq_length, h.told]

theorem grows : w.Grows w' :=
  ⟨Nat.le_of_eq (by rw [h.calls]), Nat.le_of_eq (by rw [h.attempts]),
    fun a _ => h.callOf a,
    fun a _ hr => by rw [h.attemptAt]; exact hr, fun c => Nat.le_of_eq (h.answers c).symm⟩

end Meanwhile

section

variable {w w' : World} (h : w.Grows w')
include h

theorem World.Clear.mono {stack : List Frame} (hs : w.Clear stack) : w'.Clear stack :=
  fun c hc => Nat.lt_of_lt_of_le (hs c hc) (h.answers c)

theorem World.ClearBut.mono {c : Nat} {stack : List Frame} (hs : w.ClearBut c stack) :
    w'.ClearBut c stack :=
  fun d hd => (hs d hd).imp_right fun hd => Nat.lt_of_lt_of_le hd (h.answers d)

theorem World.HostsTurn.mono {a : Nat} {stack : List Frame} (hs : w.HostsTurn a stack) :
    w'.HostsTurn a stack :=
  ⟨Nat.lt_of_lt_of_le hs.1 h.attempts, hs.2⟩

theorem World.HoldsCall.mono {c : Nat} {stack : List Frame} (hs : w.HoldsCall c stack) :
    w'.HoldsCall c stack :=
  ⟨Nat.lt_of_lt_of_le hs.1 h.calls, hs.2.mono h⟩

theorem World.HoldsAttempt.mono {a : Nat} {stack : List Frame} (hs : w.HoldsAttempt a stack) :
    w'.HoldsAttempt a stack := by
  refine ⟨Nat.lt_of_lt_of_le hs.1 h.attempts, ?_⟩
  rw [h.callOf a hs.1]
  exact hs.2.mono h

theorem Frame.Fits.mono {f : Frame} {stack : List Frame} (hf : f.Fits w stack) :
    f.Fits w' stack := by
  cases f with
  | attempts c => exact ⟨Nat.lt_of_lt_of_le hf.1 h.calls, hf.2.mono h⟩
  | sending a =>
    obtain ⟨ha, rest, hr⟩ := hf
    refine ⟨Nat.lt_of_lt_of_le ha h.attempts, rest, ?_⟩
    rw [h.callOf a ha]
    exact hr
  | turn a t => exact World.HostsTurn.mono h hf
  | reacting fault => exact World.Clear.mono h hf
  | nested | submitting _ _ | holding _ | answering _ | queue _ | worker => exact hf

theorem StackFits.mono {stack : List Frame} (hs : StackFits w stack) : StackFits w' stack := by
  induction stack with
  | nil => trivial
  | cons f stack ih => exact ⟨hs.1.mono h, ih hs.2⟩

theorem Instr.Fits.mono {i : Instr} {stack : List Frame} (hi : i.Fits w stack) :
    i.Fits w' stack := by
  cases i with
  | perform _ | react _ => exact World.Clear.mono h hi
  | begin _ | send _ _ | runQueue _ | serve => exact hi
  | turn a t => exact World.HostsTurn.mono h hi
  | deliver a o => exact ⟨Nat.lt_of_lt_of_le hi.1 h.attempts, hi.2⟩
  | schedule _ | unscheduled _ _ | copy _ | receive _ _ _ _ => exact World.HoldsAttempt.mono h hi
  | dispatch _ | fail _ _ | settle _ _ _ | complete _ _ => exact World.HoldsCall.mono h hi

/-- What fits a world fits it also after others have worked on it. -/
theorem Machine.Fits.mono {past past' : List Machine} (hp : past ⊆ past') {control : Control}
    {stack : List Frame} (hm : Machine.Fits past ⟨w, control, stack⟩) :
    Machine.Fits past' ⟨w', control, stack⟩ := by
  refine ⟨hm.stack.mono h, ?_⟩
  have hc := hm.control
  cases control with
  | run i => exact Instr.Fits.mono h hc
  | done a => trivial
  | raised f =>
    intro c hl
    rcases hc c hl with ha | ⟨m, hm, hu⟩
    · exact Or.inl (Nat.lt_of_lt_of_le ha (h.answers c))
    · exact Or.inr ⟨m, hp hm, hu⟩

end

theorem World.Clear.but {w : World} {stack : List Frame} (h : w.Clear stack) (c : Nat) :
    w.ClearBut c stack :=
  fun d hd => Or.inr (h d hd)

theorem World.ClearBut.clear {w : World} {c : Nat} {stack : List Frame} (h : w.ClearBut c stack)
    (ha : 0 < w.answers c) : w.Clear stack := by
  intro d hd
  rcases h d hd with rfl | hd
  · exact ha
  · exact hd

theorem World.clear_of_none {w : World} {stack : List Frame} (h : ownLoop stack = none) :
    w.Clear stack := by
  intro c hc
  rw [h] at hc
  cases hc

theorem ownLoop_hostsTurn {w : World} {a : Nat} {stack : List Frame} (h : w.HostsTurn a stack) :
    ownLoop stack = none := by
  obtain ⟨-, ⟨rest, rfl⟩ | ⟨answer, rfl⟩⟩ := h <;> rfl

/-- The own loop is one of the loops. -/
theorem loops_pos_of_ownLoop {stack : List Frame} {c : Nat} (h : ownLoop stack = some c) :
    0 < stack.countP (Frame.isLoopOf c) := by
  induction stack with
  | nil => cases h
  | cons f stack ih =>
    rw [List.countP_cons]
    cases f with
    | attempts d =>
      cases h
      simp [Frame.isLoopOf]
    | sending a => cases h
    | nested | turn _ _ | holding _ | submitting _ _ | reacting _ | answering _ | queue _ | worker =>
      exact Nat.lt_of_lt_of_le (ih h) (Nat.le_add_right _ _)

/-- Each attempt at the transport has a loop of its own, and a loop on top has none above it. -/
theorem sends_le_loops {w : World} {stack : List Frame} (h : StackFits w stack) (c : Nat) :
    stack.countP (Frame.isSendOf w c) ≤ stack.countP (Frame.isLoopOf c) ∧
      ∀ rest, stack = .attempts c :: rest →
        stack.countP (Frame.isSendOf w c) < stack.countP (Frame.isLoopOf c) := by
  induction stack with
  | nil => simp
  | cons f stack ih =>
    obtain ⟨ih, top⟩ := ih h.2
    rw [List.countP_cons, List.countP_cons]
    cases f with
    | attempts d =>
      constructor
      · simp [Frame.isSendOf]
        omega
      · intro rest hr
        cases hr
        simp [Frame.isSendOf, Frame.isLoopOf]
        omega
    | sending a =>
      refine ⟨?_, by simp⟩
      by_cases ha : w.callOf a = c
      · obtain ⟨-, rest, hr⟩ := h.1
        have := top rest (ha ▸ hr)
        simp only [Frame.isSendOf, Frame.isLoopOf, ha]
        simp
        omega
      · simpa [Frame.isSendOf, Frame.isLoopOf, ha] using ih
    | nested | turn _ _ | holding _ | submitting _ _ | reacting _ | answering _ | queue _ | worker =>
      refine ⟨?_, by simp⟩
      simpa [Frame.isSendOf, Frame.isLoopOf] using ih

end RequestFlow
