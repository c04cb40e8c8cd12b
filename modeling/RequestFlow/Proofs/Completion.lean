import RequestFlow.Proofs.Balance

/-!
# Exactly one answer

Whatever transports, executors, classifiers and continuations do, and in whatever order, a performed
call is in exactly one place: an attempt that waits for its outcome, an attempt that waits to begin, a
body that waits to be copied, an outcome in the hand of a thread, or an answer.  So it is never
answered twice.  That a call at rest was answered also needs a transport that raises no fault after
the attempt was resolved, other than the fault of a continuation that was told the answer.

    unresolved + waiting + queued + held + answers = 1                    (Reachable.exactly_once)
-/

namespace RequestFlow.Network

/-- Outcomes of the call that threads have in hand, a body being copied among them. -/
def held (s : Network) (c : Nat) : Nat := s.total fun m => m.inHand c

/-- No thread runs attempts of the call or has an outcome of it in hand. -/
def Rests (s : Network) (c : Nat) : Prop :=
  ∀ t ∈ s.threads, (t.on s.world).loops c = 0 ∧ (t.on s.world).inHand c = 0

instance (s : Network) (c : Nat) : Decidable (s.Rests c) :=
  inferInstanceAs (Decidable (∀ t ∈ s.threads, _))

/-! ## Lemmas -/

variable {s : Network}

theorem Rests.loops {c : Nat} (h : s.Rests c) : s.total (fun m => m.loops c) = 0 :=
  total_eq_zero fun t ht => (h t ht).1

theorem Rests.held {c : Nat} (h : s.Rests c) : s.held c = 0 :=
  total_eq_zero fun t ht => (h t ht).2

/-- A call at rest has no loop that would begin an attempt. -/
theorem Rests.begins {c : Nat} (h : s.Rests c) (hs : s.Sane) :
    s.total (fun m => m.does (.begin c)) = 0 := by
  have := hs.atTransport_add_begins_le c
  have := h.loops
  omega

/-- A fault leaves a loop only after an answer, or past an attempt that was resolved before. -/
theorem Reachable.left (h : Reachable s) (c : Nat) (hl : 0 < s.times (.leave c)) :
    0 < s.world.answers c ∨ ∃ m ∈ s.past, m.LeavesUnanswered c := by
  induction h with
  | start w _ => simp [times] at hl
  | step hr hs ih =>
    cases hs with
    | move w l t r past m hm =>
      have sane := hr.sane
      have sound := sane.sound hm
      by_cases act : (t.on w).act = .leave c
      · obtain ⟨f, rest, hc, hs⟩ : ∃ f rest, (t.on w).control = .raised f ∧
            (t.on w).stack = .attempts c :: rest := by
          unfold Machine.act at act
          split at act <;> simp_all
        have fits := sane.own.control
        rw [hc, hs] at fits
        rcases fits c rfl with ha | ⟨n, hn, hu⟩
        · exact Or.inl (Nat.lt_of_lt_of_le ha (sound.grows.answers c))
        · exact Or.inr ⟨n, List.mem_cons_of_mem _ hn, hu⟩
      · rw [times_cons, Machine.does_of_ne act] at hl
        rcases ih hl with ha | ⟨n, hn, hu⟩
        · exact Or.inl (Nat.lt_of_lt_of_le ha (sound.grows.answers c))
        · exact Or.inr ⟨n, List.mem_cons_of_mem _ hn, hu⟩
    | arrive _ t ht => exact ih hl
    | meanwhile _ w hm =>
      rcases ih hl with ha | hu
      · exact Or.inl (Nat.lt_of_lt_of_le ha (hm.grows.answers c))
      · exact Or.inr hu

/-- Without such a fault, no attempt is left waiting by a call at rest. -/
theorem Reachable.waiting_eq_zero (h : Reachable s) {c : Nat}
    (hf : ∀ m ∈ s.past, ¬ m.LeavesUnanswered c) (hr : s.Rests c) (ha : s.world.answers c = 0) :
    s.waiting c = 0 := by
  have loops := (h.sane.balanced c).loops
  have begins := hr.begins h.sane
  rw [hr.loops] at loops
  have left : s.times (.leave c) = 0 := by
    by_contra hl
    rcases h.left c (Nat.pos_of_ne_zero hl) with hp | ⟨m, hm, hu⟩
    · omega
    · exact hf m hm hu
  have none : s.world.pendingOf c = 0 := by
    by_contra hp
    rw [if_neg hp] at loops
    omega
  unfold waiting
  omega

theorem Reachable.answers_le_one (h : Reachable s) (c : Nat) : s.world.answers c ≤ 1 := by
  have one := h.sane.one c
  have performed := s.world.performed_le_one c
  omega

/-- A call at rest, with no attempt unresolved and no body queued, was answered if its transport
raised no fault after an outcome. -/
theorem Reachable.answered_at_rest (h : Reachable s) {c : Nat} (hc : c < s.world.calls.size)
    (hf : ∀ m ∈ s.past, ¬ m.LeavesUnanswered c) (hr : s.Rests c) (hu : s.world.unresolved c = 0)
    (hq : s.world.queuedFor c = 0) : s.world.answers c = 1 := by
  have one := h.sane.one c
  have performed : s.world.performed c = 1 := if_pos hc
  have held := hr.held
  unfold Network.held at held
  by_contra ha
  have := h.waiting_eq_zero hf hr (by omega)
  omega

/-- **Exactly one answer.** A performed call is in exactly one place.  It is answered at most once,
never when it is complete already, and it has been answered once it is at rest with no attempt
unresolved and no body queued, unless a transport raised a fault after the outcome. -/
theorem Reachable.exactly_once (h : Reachable s) {c : Nat} (hc : c < s.world.calls.size) :
    s.world.unresolved c + s.waiting c + s.world.queuedFor c + s.held c + s.world.answers c = 1 ∧
      s.world.answers c ≤ 1 ∧
      (∀ t ∈ s.threads, ∀ result, t.control = .run (.complete c result) →
        (s.world.callAt c).completed = false) ∧
      ((∀ m ∈ s.past, ¬ m.LeavesUnanswered c) → s.Rests c →
        s.world.unresolved c = 0 → s.world.queuedFor c = 0 → s.world.answers c = 1) := by
  have one := h.sane.one c
  have performed : s.world.performed c = 1 := if_pos hc
  refine ⟨by unfold held; omega, by omega, ?_, h.answered_at_rest hc⟩
  intro t ht result hr
  have ready := (h.sane.ready ht).undone c
  simp only [Machine.inHand, Thread.on, hr, Instr.hand?, ↓reduceIte] at ready
  exact s.world.completedOf_eq_zero_iff.1 (ready Nat.one_pos)

/-- Performing a request whose first attempt fails, is tried again, and then gets a response. -/
def retriedOnce : Machine :=
  Machine.doing
    { requests := #[some { url := text "u", method := text "GET" }]
      classifiers := #[.granting 1]
      transport := { script := [.deliver (.failure ⟨.timeout, []⟩),
        .deliver (.reply (.ofBytes 200 [] (text "ok")))] } }
    (.perform ⟨0, .rest, .rest⟩) []

theorem retriedOnce_fresh : retriedOnce.world.Fresh := by
  refine ⟨rfl, rfl, rfl, rfl, ?_⟩
  intro e he
  cases he
  rfl

theorem exactly_once_retriedOnce :
    (alone 40 retriedOnce).Reachable ∧ 0 < (alone 40 retriedOnce).world.calls.size ∧
      (∀ m ∈ (alone 40 retriedOnce).past, ¬ m.LeavesUnanswered 0) ∧
      (alone 40 retriedOnce).Rests 0 ∧ (alone 40 retriedOnce).world.unresolved 0 = 0 ∧
      (alone 40 retriedOnce).world.queuedFor 0 = 0 ∧
      (alone 40 retriedOnce).world.answers 0 = 1 := by
  have reachable : (alone 40 retriedOnce).Reachable := .alone retriedOnce_fresh _ _
  have performed : 0 < (alone 40 retriedOnce).world.calls.size := by decide +kernel
  have raised : ∀ m ∈ (alone 40 retriedOnce).past, m.isRaised = false := by decide +kernel
  have calm : ∀ m ∈ (alone 40 retriedOnce).past, ¬ m.LeavesUnanswered 0 :=
    fun m hm => Machine.not_leavesUnanswered (raised m hm)
  have rests : (alone 40 retriedOnce).Rests 0 := by decide +kernel
  have resolved : (alone 40 retriedOnce).world.unresolved 0 = 0 := by decide +kernel
  have copied : (alone 40 retriedOnce).world.queuedFor 0 = 0 := by decide +kernel
  exact ⟨reachable, performed, calm, rests, resolved, copied,
    (reachable.exactly_once performed).2.2.2 calm rests resolved copied⟩

end RequestFlow.Network
