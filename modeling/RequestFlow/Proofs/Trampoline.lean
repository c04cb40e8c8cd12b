import RequestFlow.Proofs.Completion
import RequestFlow.Proofs.Latest

/-!
# One attempt at a time

The threads of a call meet at its count of pending attempts: a thread that decides to try again
counts one up, and a thread whose attempt has returned counts one down.  Whichever comes first, the
next attempt is left to exactly one thread, the one that runs the loop of the call.  This holds for
any number of retries and in every order of the steps of all threads.

    the count is at most 2, and 0 when no thread runs the loop          (Reachable.one_at_a_time)
-/

namespace RequestFlow

namespace Machine

/-- Who is about to register an attempt has an outcome in hand. -/
theorem registers_le_inHand (m : Machine) (c : Nat) : m.does (.register c) ≤ m.inHand c := by
  by_cases h : m.act = .register c
  · obtain ⟨w, control, stack⟩ := m
    have : control = .run (.dispatch c) := by
      unfold act at h
      split at h <;> simp_all
    subst this
    rw [does_of_eq h, inHand_run]
    simp [Instr.hand?]
  · rw [does_of_ne h]
    exact Nat.zero_le _

/-- Who is about to enter the transport is accounted for there already. -/
theorem sends_le_atTransport {past : List Machine} {m : Machine} (hm : m.Fits past) (c : Nat) :
    m.does (.send c) ≤ m.atTransport c := by
  by_cases h : m.act = .send c
  · obtain ⟨w, control, stack⟩ := m
    obtain ⟨a, headers, rfl, rfl⟩ : ∃ a headers, control = .run (.send a headers) ∧ w.callOf a = c := by
      unfold act at h
      split at h <;> simp_all
    obtain ⟨rest, rfl⟩ := hm.control
    rw [does_of_eq h]
    simp [atTransport, Frame.isSendOf]
  · rw [does_of_ne h]
    exact Nat.zero_le _

end Machine

namespace Network

/-- Attempts of the call that threads have handed to the transport and wait for. -/
def atTransport (s : Network) (c : Nat) : Nat := s.total fun m => m.atTransport c

variable {s : Network}

/-- Decisions to try again, and the first attempt, against the attempts begun. -/
theorem Sane.attemptsOf_add (h : s.Sane) (c : Nat) :
    s.world.attemptsOf c + s.waiting c + s.total (fun m => m.does (.register c)) =
      s.times (.grant c) + s.world.performed c := by
  have registered := (h.balanced c).registered
  have := (h.balanced c).times_register
  omega

theorem total_registers_le (s : Network) (c : Nat) :
    s.total (fun m => m.does (.register c)) ≤ s.held c :=
  total_mono fun t _ => (t.on s.world).registers_le_inHand c

/-- A loop that no thread runs and no fault has left has nothing pending. -/
theorem Sane.pendingOf_eq_zero (h : s.Sane) {c : Nat} (hf : ∀ m ∈ s.past, m.act ≠ .leave c)
    (hl : ∀ t ∈ s.threads, (t.on s.world).loops c = 0) : s.world.pendingOf c = 0 := by
  have loops := (h.balanced c).loops
  have none : s.total (fun m => m.loops c) = 0 := total_eq_zero hl
  have left : s.times (.leave c) = 0 := List.countP_eq_zero.2 (by simpa using hf)
  rw [none, left] at loops
  by_contra hp
  rw [if_neg hp] at loops
  omega

/-- **One attempt at a time.** The transport is at work on at most one attempt of a call.  An attempt
enters it only when every other one was resolved and has returned.  Attempts follow decisions one by
one, and if no fault has left the loop, then every decision to try again has been followed by exactly
one attempt once the threads of the call have finished; each attempt is sent, unless its extra
headers cannot be made.  The count of pending attempts never exceeds 2, and is 0 when no thread runs
the loop. -/
theorem Reachable.one_at_a_time (h : Reachable s) {c : Nat} (hc : c < s.world.calls.size) :
    s.atTransport c ≤ 1 ∧
      (∀ t ∈ s.threads, ∀ a headers, t.control = .run (.send a headers) → s.world.callOf a = c →
        s.atTransport c = 1 ∧ ∀ b < s.world.attempts.size, s.world.callOf b = c → b ≠ a →
          b < a ∧ (s.world.attemptAt b).resolved = true) ∧
      s.times (.grant c) ≤ s.world.attemptsOf c ∧
      s.world.attemptsOf c ≤ s.times (.grant c) + 1 ∧
      ((∀ m ∈ s.past, m.act ≠ .leave c) → s.Rests c →
        s.times (.send c) + s.missed c = s.times (.grant c) + 1) ∧
      s.world.pendingOf c ≤ 2 ∧
      ((∀ m ∈ s.past, m.act ≠ .leave c) → (∀ t ∈ s.threads, (t.on s.world).loops c = 0) →
        s.world.pendingOf c = 0) := by
  have sane := h.sane
  have ordered := h.ordered
  have one := sane.one c
  have performed : s.world.performed c = 1 := if_pos hc
  have below := sane.atTransport_add_begins_le c
  have loops := sane.loops_le_one c
  have decided := sane.attemptsOf_add c
  have registers := s.total_registers_le c
  unfold held at registers
  have single : s.atTransport c ≤ 1 := by
    unfold atTransport
    omega
  refine ⟨single, ?_, by omega, by omega, ?_, ?_, ?_⟩
  · intro t ht a headers hs hac
    obtain ⟨rest, hstack⟩ : ∃ rest, t.stack = .sending a :: rest := by
      have fits := (sane.fits t ht).control
      simp only [Thread.on, hs] at fits
      exact fits
    have top : .sending a ∈ t.stack := by simp [hstack]
    constructor
    · have := total_atTransport_pos ht top
      rw [hac] at this
      unfold atTransport at single ⊢
      omega
    · intro b hb hbc hne
      have last := ordered.sending t ht a top
      rw [hac] at last
      refine ⟨Nat.lt_of_le_of_ne (last.2.2 b hb hbc) hne, ?_⟩
      by_contra hr
      have latest := ordered.unresolved b hb (by simpa using hr)
      rw [hbc] at latest
      exact hne (latest.eq last)
  · intro hf hr
    have idle := sane.pendingOf_eq_zero hf fun t ht => (hr t ht).1
    have begins := hr.begins sane
    have held := hr.held
    have begun := (sane.balanced c).begun
    have sends : s.total (fun m => m.does (.send c)) ≤ s.total fun m => m.atTransport c :=
      total_mono fun t ht => Machine.sends_le_atTransport (sane.fits t ht) c
    have stopped := hr.loops
    unfold waiting at decided
    unfold Network.held at held
    omega
  · unfold waiting at one
    omega
  · intro hf hl
    exact sane.pendingOf_eq_zero hf hl

theorem one_at_a_time_retriedOnce :
    (alone 40 retriedOnce).Reachable ∧ 0 < (alone 40 retriedOnce).world.calls.size ∧
      (∀ m ∈ (alone 40 retriedOnce).past, m.act ≠ .leave 0) ∧ (alone 40 retriedOnce).Rests 0 ∧
      (alone 40 retriedOnce).times (.grant 0) = 1 ∧
      (alone 40 retriedOnce).times (.send 0) + (alone 40 retriedOnce).missed 0 = 1 + 1 ∧
      (alone 40 retriedOnce).world.pendingOf 0 = 0 := by
  have reachable : (alone 40 retriedOnce).Reachable := .alone retriedOnce_fresh _ _
  have performed : 0 < (alone 40 retriedOnce).world.calls.size := by decide +kernel
  have kept : ∀ m ∈ (alone 40 retriedOnce).past, m.act ≠ .leave 0 := by decide +kernel
  have rests : (alone 40 retriedOnce).Rests 0 := by decide +kernel
  have grants : (alone 40 retriedOnce).times (.grant 0) = 1 := by decide +kernel
  obtain ⟨-, -, -, -, followed, -, idle⟩ := reachable.one_at_a_time performed
  refine ⟨reachable, performed, kept, rests, grants, ?_, ?_⟩
  · rw [← grants]
    exact followed kept rests
  · exact idle kept fun t ht => (rests t ht).1

end Network

end RequestFlow
